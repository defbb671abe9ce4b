import Ramify.Automaton
import Ramify.C.Error
import Ramify.C.Token

namespace Ramify.C

structure Recognizer (σ κ : Type) where
  automaton : Automaton σ κ
  stateText : σ → String
  build : σ → List UInt8 → Span → Except LexError Token

namespace Recognizer

variable {σ κ : Type} (r : Recognizer σ κ)

def scan (c : Cursor) : Except LexError Token × Cursor :=
  match r.automaton.run c with
  | (.ok s, stop) => (r.build s (c.sliceTo stop) (c.spanTo stop), stop)
  | (.error f, stop) => (.error (.ofFault f), stop)

def records (c : Cursor) : List Record := r.automaton.records r.stateText c

end Recognizer

def asciiChars (bytes : List UInt8) : List Char := bytes.map fun b => Char.ofNat b.toNat

def asciiText (bytes : List UInt8) : String := String.ofList (asciiChars bytes)

def isDigit (b : UInt8) : Bool := 48 ≤ b && b ≤ 57

def isOctalDigit (b : UInt8) : Bool := 48 ≤ b && b ≤ 55

def isHexDigit (b : UInt8) : Bool :=
  isDigit b || (97 ≤ b && b ≤ 102) || (65 ≤ b && b ≤ 70)

def isNondigit (b : UInt8) : Bool :=
  (97 ≤ b && b ≤ 122) || (65 ≤ b && b ≤ 90) || b == 95

def isWordByte (b : UInt8) : Bool := isNondigit b || isDigit b

end Ramify.C
