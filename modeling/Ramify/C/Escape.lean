import Ramify.C.Recognizer

namespace Ramify.C.Escape

def letters : List (UInt8 × UInt8) := [
  (110, 10), (116, 9), (114, 13), (97, 7), (98, 8), (102, 12), (118, 11),
  (92, 92), (39, 39), (34, 34), (63, 63)]

def digitValue (b : UInt8) : Nat :=
  if isDigit b then b.toNat - 48 else if b < 97 then b.toNat - 55 else b.toNat - 87

def valueOf (base : Nat) (digits : List UInt8) : Nat :=
  digits.foldl (fun value b => value * base + digitValue b) 0

def toByte (value : Nat) : Except ErrorKind UInt8 :=
  if value < 256 then .ok value.toUInt8 else .error .escapeOutOfRange

/-- The byte that a backslash followed by `bytes` denotes, with the number of bytes used
behind the backslash. -/
def afterBackslash : List UInt8 → Except ErrorKind (UInt8 × Nat)
  | [] => .error .unidentifiedToken
  | e :: rest =>
    match letters.lookup e with
    | some b => .ok (b, 1)
    | none =>
      if isOctalDigit e then do
        let digits := e :: (rest.take 2).takeWhile isOctalDigit
        return (← toByte (valueOf 8 digits), digits.length)
      else if e = 120 then do
        let digits := rest.takeWhile isHexDigit
        if digits.isEmpty then .error .unidentifiedToken
        else return (← toByte (valueOf 16 digits), digits.length + 1)
      else .error .unidentifiedToken

def decode : List UInt8 → Except ErrorKind (List UInt8)
  | [] => .ok []
  | b :: rest =>
    if b = 92 then
      match afterBackslash rest with
      | .error e => .error e
      | .ok (value, n) => (decode (rest.drop n)).map (value :: ·)
    else (decode rest).map (b :: ·)
termination_by body => body.length
decreasing_by all_goals simp only [List.length_cons, List.length_drop]; omega

def octal (b : UInt8) : List Char :=
  let digit (n : Nat) : Char := Char.ofNat (48 + n % 8)
  ['\\', digit (b.toNat / 64), digit (b.toNat / 8), digit b.toNat]

def encodeByte (b : UInt8) : List Char :=
  if b = 10 then ['\\', 'n']
  else if b = 9 then ['\\', 't']
  else if b = 13 then ['\\', 'r']
  else if b = 92 || b = 39 || b = 34 then ['\\', Char.ofNat b.toNat]
  else if 32 ≤ b && b ≤ 126 then [Char.ofNat b.toNat]
  else octal b

def encode (bytes : List UInt8) : String := String.ofList (bytes.flatMap encodeByte)

end Ramify.C.Escape
