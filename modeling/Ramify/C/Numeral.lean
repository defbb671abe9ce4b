import Ramify.C.Recognizer

/-! Integer and floating constants. -/

namespace Ramify.C.Numeral

inductive State where
  | start | zero | octal | decimal
  | hexPrefix | hex | hexDot | hexFraction | hexExpStart | hexExpSign | hexExp
  | leadingDot | fraction | expStart | expSign | exp
  | intSuffix | floatSuffix

inductive Cond where
  | zero | digit | hexDigit | x | dot | e | p | sign | u | l | f

def State.text : State → String
  | .start => "Start"
  | .zero => "Zero"
  | .octal => "Octal"
  | .decimal => "Decimal"
  | .hexPrefix => "HexPrefix"
  | .hex => "Hex"
  | .hexDot => "HexDot"
  | .hexFraction => "HexFraction"
  | .hexExpStart => "HexExpStart"
  | .hexExpSign => "HexExpSign"
  | .hexExp => "HexExp"
  | .leadingDot => "LeadingDot"
  | .fraction => "Fraction"
  | .expStart => "ExpStart"
  | .expSign => "ExpSign"
  | .exp => "Exp"
  | .intSuffix => "IntSuffix"
  | .floatSuffix => "FloatSuffix"

def either (c d : Char) (b : UInt8) : Bool := b == c.toUInt8 || b == d.toUInt8

def edge : State → Cond → Option State
  | .start, .zero => some .zero
  | .start, .digit => some .decimal
  | .start, .dot => some .leadingDot
  | .zero, .digit => some .octal
  | .zero, .x => some .hexPrefix
  | .octal, .digit => some .octal
  | .decimal, .digit => some .decimal
  | .zero, .dot | .octal, .dot | .decimal, .dot => some .fraction
  | .zero, .e | .octal, .e | .decimal, .e => some .expStart
  | .leadingDot, .digit => some .fraction
  | .fraction, .digit => some .fraction
  | .fraction, .e => some .expStart
  | .expStart, .sign => some .expSign
  | .expStart, .digit | .expSign, .digit | .exp, .digit => some .exp
  | .hexPrefix, .hexDigit => some .hex
  | .hexPrefix, .dot => some .hexDot
  | .hex, .hexDigit => some .hex
  | .hex, .dot => some .hexFraction
  | .hexDot, .hexDigit | .hexFraction, .hexDigit => some .hexFraction
  | .hex, .p | .hexFraction, .p => some .hexExpStart
  | .hexExpStart, .sign => some .hexExpSign
  | .hexExpStart, .digit | .hexExpSign, .digit | .hexExp, .digit => some .hexExp
  | .zero, .u | .octal, .u | .decimal, .u | .hex, .u | .intSuffix, .u => some .intSuffix
  | .zero, .l | .octal, .l | .decimal, .l | .hex, .l | .intSuffix, .l => some .intSuffix
  | .fraction, .f | .exp, .f | .hexExp, .f => some .floatSuffix
  | .fraction, .l | .exp, .l | .hexExp, .l => some .floatSuffix
  | _, _ => none

def accepts : State → Bool
  | .zero | .octal | .decimal | .hex | .intSuffix => true
  | .fraction | .exp | .hexExp | .floatSuffix => true
  | _ => false

def isInteger : State → Bool
  | .zero | .octal | .decimal | .hex | .intSuffix => true
  | _ => false

def automaton : Automaton State Cond where
  name := "number"
  start := .start
  conditions := [
    (.zero, (· == 48)),
    (.digit, isDigit),
    (.hexDigit, isHexDigit),
    (.x, either 'x' 'X'),
    (.dot, (· == 46)),
    (.e, either 'e' 'E'),
    (.p, either 'p' 'P'),
    (.sign, either '+' '-'),
    (.u, either 'u' 'U'),
    (.l, either 'l' 'L'),
    (.f, either 'f' 'F')]
  edge := edge
  accepts := accepts

def digitValue? (c : Char) : Option Nat :=
  if '0' ≤ c && c ≤ '9' then some (c.toNat - 48)
  else if 'a' ≤ c && c ≤ 'f' then some (c.toNat - 87)
  else if 'A' ≤ c && c ≤ 'F' then some (c.toNat - 55)
  else none

def natural? (base : Nat) (digits : List Char) : Option Nat :=
  digits.foldlM (fun value c => do
    let d ← digitValue? c
    if d < base then some (value * base + d) else none) 0

def signed? : List Char → Option Int
  | '-' :: digits => (natural? 10 digits).map fun n => -(n : Int)
  | '+' :: digits => (natural? 10 digits).map Int.ofNat
  | digits => (natural? 10 digits).map Int.ofNat

def isSuffixLetter (c : Char) : Bool := c == 'u' || c == 'U' || c == 'l' || c == 'L'

def isLong : List Char → Bool
  | ['l'] | ['L'] | ['l', 'l'] | ['L', 'L'] => true
  | _ => false

/-- The suffix without the `u` that opens or ends it. -/
def withoutUnsigned? : List Char → Option (List Char)
  | 'u' :: rest | 'U' :: rest => some rest
  | suffix =>
    match suffix.getLast? with
    | some 'u' | some 'U' => some suffix.dropLast
    | _ => none

def integerType? (suffix : List Char) : Option IntegerType :=
  if suffix.isEmpty then some .i32
  else if isLong suffix then some .i64
  else do
    let rest ← withoutUnsigned? suffix
    if rest.isEmpty then some .u32
    else if isLong rest then some .u64
    else none

def integerDigits : List Char → Nat × List Char
  | '0' :: 'x' :: digits | '0' :: 'X' :: digits => (16, digits)
  | '0' :: d :: digits => (8, d :: digits)
  | digits => (10, digits)

def integerValue? (text : List Char) : Option Value := do
  let suffix := (text.reverse.takeWhile isSuffixLetter).reverse
  let type ← integerType? suffix
  let (base, digits) := integerDigits (text.take (text.length - suffix.length))
  let value ← natural? base digits
  if value ≤ type.max then some (.int value type) else none

def splitPoint (mantissa : List Char) : List Char × List Char :=
  (mantissa.takeWhile (· != '.'), (mantissa.dropWhile (· != '.')).drop 1)

def decimalFloat? (body : List Char) : Option Binary64 := do
  let isMark (c : Char) : Bool := c == 'e' || c == 'E'
  let (whole, part) := splitPoint (body.takeWhile (!isMark ·))
  let digits ← natural? 10 (whole ++ part)
  let exponent ← signed? ((body.dropWhile (!isMark ·)).drop 1)
  some (Binary64.ofDecimal digits (exponent - part.length))

def isWord32 (e : Int) : Bool := -2147483648 ≤ e && e ≤ 2147483647

/-- A hexadecimal constant without prefix and suffix. The binary exponent, the four that each digit
behind the point takes off it, and what is left are 32-bit numbers. -/
def hexFloat? (body : List Char) : Option Binary64 := do
  let isMark (c : Char) : Bool := c == 'p' || c == 'P'
  let (whole, part) := splitPoint (body.takeWhile (!isMark ·))
  let written ← signed? ((body.dropWhile (!isMark ·)).drop 1)
  let lowered := 4 * part.length
  let exponent := written - lowered
  let digits ← (whole ++ part).mapM digitValue?
  if isWord32 written && isWord32 lowered && isWord32 exponent then
    some ((digits.foldl Binary64.shiftHex .zero).scale exponent)
  else none

def floatBody (text : List Char) : List Char × FloatingType :=
  match text.getLast? with
  | some 'f' | some 'F' => (text.dropLast, .f32)
  | some 'l' | some 'L' => (text.dropLast, .f64)
  | _ => (text, .f64)

def floatValue? (text : List Char) : Option Value := do
  let (body, type) := floatBody text
  let x ← match body with
    | '0' :: 'x' :: rest | '0' :: 'X' :: rest => hexFloat? rest
    | _ => decimalFloat? body
  let x := match type with
    | .f32 => x.toSingle
    | .f64 => x
  if x.isFinite then some (.float x type) else none

def recognizer : Recognizer State Cond where
  automaton := automaton
  stateText := State.text
  build s lexeme span :=
    let chars := asciiChars lexeme
    let (kind, value?) :=
      if isInteger s then (TokenKind.integer, integerValue? chars)
      else (TokenKind.floating, floatValue? chars)
    match value? with
    | some value => .ok { kind, text := String.ofList chars, span, value := some value }
    | none => .error ⟨.unidentifiedToken, span⟩

end Ramify.C.Numeral
