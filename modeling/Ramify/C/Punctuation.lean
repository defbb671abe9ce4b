import Ramify.C.Recognizer

namespace Ramify.C.Punctuation

inductive State where
  | start
  | dotDot
  | kind (p : Punctuator)

def State.text : State → String
  | .start => "Start"
  | .dotDot => "DotDot"
  | .kind p => s!"At({p.name})"

def single : List (Char × Punctuator) := [
  ('[', .leftBracket), (']', .rightBracket), ('(', .leftParen), (')', .rightParen),
  ('\x7b', .leftBrace), ('\x7d', .rightBrace), ('.', .dot), ('&', .ampersand), ('*', .asterisk),
  ('+', .plus), ('-', .minus), ('~', .tilde), ('!', .exclamation), ('/', .slash), ('%', .percent),
  ('<', .less), ('>', .greater), ('^', .caret), ('|', .pipe), ('?', .question), (':', .colon),
  (';', .semicolon), ('=', .equal), (',', .comma), ('#', .hash)]

def longer : Punctuator → Char → Option Punctuator
  | .minus, '>' => some .arrow
  | .minus, '-' => some .decrement
  | .minus, '=' => some .minusEqual
  | .plus, '+' => some .increment
  | .plus, '=' => some .plusEqual
  | .ampersand, '&' => some .andAnd
  | .ampersand, '=' => some .andEqual
  | .pipe, '|' => some .orOr
  | .pipe, '=' => some .pipeEqual
  | .asterisk, '=' => some .starEqual
  | .slash, '=' => some .slashEqual
  | .percent, '=' => some .percentEqual
  | .caret, '=' => some .caretEqual
  | .exclamation, '=' => some .notEqual
  | .equal, '=' => some .equalEqual
  | .less, '<' => some .leftShift
  | .less, '=' => some .lessEqual
  | .leftShift, '=' => some .leftShiftEqual
  | .greater, '>' => some .rightShift
  | .greater, '=' => some .greaterEqual
  | .rightShift, '=' => some .rightShiftEqual
  | .hash, '#' => some .hashHash
  | _, _ => none

def automaton : Automaton State Char where
  name := "punctuator"
  start := .start
  conditions := single.map fun (c, _) => (c, (· == c.toUInt8))
  edge
    | .start, c => (single.lookup c).map .kind
    | .kind .dot, c => if c = '.' then some .dotDot else none
    | .dotDot, c => if c = '.' then some (.kind .ellipsis) else none
    | .kind p, c => (longer p c).map .kind
  accepts
    | .kind _ => true
    | _ => false
  backtracks := true

def recognizer : Recognizer State Char where
  automaton := automaton
  stateText := State.text
  build s lexeme span :=
    match s with
    | .kind p => .ok { kind := .punctuator p, text := asciiText lexeme, span }
    | _ => .error ⟨.unidentifiedToken, span⟩

end Ramify.C.Punctuation
