import Ramify.C.Recognizer

namespace Ramify.C.Word

inductive State where
  | start | word

inductive Cond where
  | nondigit | digit

def State.text : State → String
  | .start => "Start"
  | .word => "Word"

def automaton : Automaton State Cond where
  name := "identifier"
  start := .start
  conditions := [(.nondigit, isNondigit), (.digit, isDigit)]
  edge
    | .start, .nondigit => some .word
    | .word, .nondigit => some .word
    | .word, .digit => some .word
    | .start, .digit => none
  accepts
    | .word => true
    | .start => false

def recognizer : Recognizer State Cond where
  automaton := automaton
  stateText := State.text
  build _ lexeme span :=
    let text := asciiText lexeme
    let kind := match Keyword.ofSpelling? text with
      | some k => .keyword k
      | none => .identifier
    .ok { kind, text, span }

end Ramify.C.Word
