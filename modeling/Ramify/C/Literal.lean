import Ramify.C.Escape
import Ramify.C.Recognizer
import Ramify.Text.Utf8

namespace Ramify.C.Literal

inductive State where
  | start | body | escape | closed

inductive Cond where
  | quote | backslash | newline | any

def State.text : State → String
  | .start => "Start"
  | .body => "Body"
  | .escape => "Escape"
  | .closed => "Closed"

def automaton (name : String) (quote : UInt8) : Automaton State Cond where
  name := name
  start := .start
  conditions := [
    (.quote, (· == quote)), (.backslash, (· == 92)), (.newline, (· == 10)), (.any, fun _ => true)]
  edge
    | .start, .quote => some .body
    | .body, .quote => some .closed
    | .body, .backslash => some .escape
    | .body, .any => some .body
    | .escape, .quote | .escape, .backslash | .escape, .any => some .body
    | _, _ => none
  accepts
    | .closed => true
    | _ => false
  forbids
    | .body, .newline | .escape, .newline => true
    | _, _ => false

def contents (lexeme : List UInt8) (span : Span) : Except LexError (List UInt8) :=
  match Escape.decode (lexeme.drop 1).dropLast with
  | .ok bytes => .ok bytes
  | .error kind => .error ⟨kind, span⟩

def stringRecognizer : Recognizer State Cond where
  automaton := automaton "string" 34
  stateText := State.text
  build _ lexeme span := do
    let bytes ← contents lexeme span
    return { kind := .string, text := Text.Utf8.decodeLossy lexeme, span, value := some (.bytes bytes) }

def charRecognizer : Recognizer State Cond where
  automaton := automaton "char" 39
  stateText := State.text
  build _ lexeme span := do
    match ← contents lexeme span with
    | [b] =>
      return { kind := .character, text := Text.Utf8.decodeLossy lexeme, span, value := some (.char b) }
    | _ => .error ⟨.unidentifiedToken, span⟩

end Ramify.C.Literal
