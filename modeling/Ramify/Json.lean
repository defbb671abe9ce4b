import Ramify.Text.Hex

/-! JSON values, their reader, and the printer with two blanks per level. -/

namespace Ramify.Json

/-- A value. Numbers other than natural ones are recognized but not kept, and a string that
names half of a surrogate pair has no text. -/
inductive Value where
  | null
  | bool (b : Bool)
  | nat (n : Nat)
  | otherNumber
  | str (text : Option String)
  | array (items : List Value)
  | object (members : List (Option String × Value))

def Value.string (s : String) : Value := .str (some s)

def Value.record (members : List (String × Value)) : Value :=
  .object (members.map fun (k, v) => (some k, v))

/-! ### Printing -/

def escapeChar (c : Char) : List Char :=
  if c = '"' then ['\\', '"']
  else if c = '\\' then ['\\', '\\']
  else if c = '\n' then ['\\', 'n']
  else if c = '\r' then ['\\', 'r']
  else if c = '\t' then ['\\', 't']
  else if c.toNat = 8 then ['\\', 'b']
  else if c.toNat = 12 then ['\\', 'f']
  else if c.toNat < 32 then ['\\', 'u', '0', '0'] ++ Text.hexByte c.toNat.toUInt8
  else [c]

def stringText (s : String) : String :=
  "\"" ++ String.ofList (s.toList.flatMap escapeChar) ++ "\""

def newline (depth : Nat) : String := "\n" ++ String.ofList (List.replicate (2 * depth) ' ')

def enclose (left right : String) (depth : Nat) (items : List String) : String :=
  if items.isEmpty then left ++ right
  else
    left ++ ",".intercalate (items.map (newline (depth + 1) ++ ·)) ++ newline depth ++ right

mutual

def pretty (depth : Nat) : Value → String
  | .null => "null"
  | .bool b => if b then "true" else "false"
  | .nat n => toString n
  | .otherNumber => "0"
  | .str s => stringText (s.getD "")
  | .array items => enclose "[" "]" depth (prettyItems (depth + 1) items)
  | .object members => enclose "\x7b" "\x7d" depth (prettyMembers (depth + 1) members)

def prettyItems (depth : Nat) : List Value → List String
  | [] => []
  | v :: rest => pretty depth v :: prettyItems depth rest

def prettyMembers (depth : Nat) : List (Option String × Value) → List String
  | [] => []
  | (k, v) :: rest =>
    (stringText (k.getD "") ++ ": " ++ pretty depth v) :: prettyMembers depth rest

end

/-! ### Reading -/

def isBlank (c : Char) : Bool := c == ' ' || c == '\n' || c == '\t' || c == '\r'

def skipBlank (cs : List Char) : List Char := cs.dropWhile isBlank

def hexValue? (c : Char) : Option Nat :=
  if c.isDigit then some (c.toNat - 48)
  else if 'a' ≤ c && c ≤ 'f' then some (c.toNat - 87)
  else if 'A' ≤ c && c ≤ 'F' then some (c.toNat - 55)
  else none

def hex4? (a b c d : Char) : Option Nat := do
  return ((← hexValue? a) * 16 + (← hexValue? b)) * 256 + ((← hexValue? c) * 16 + (← hexValue? d))

def isHigh (n : Nat) : Bool := 0xD800 ≤ n && n < 0xDC00

def isLow (n : Nat) : Bool := 0xDC00 ≤ n && n < 0xE000

def shortEscape? : Char → Option Char
  | '"' => some '"'
  | '\\' => some '\\'
  | '/' => some '/'
  | 'b' => some (Char.ofNat 8)
  | 'f' => some (Char.ofNat 12)
  | 'n' => some '\n'
  | 'r' => some '\r'
  | 't' => some '\t'
  | _ => none

def stringUnit? (c : Char) (rest : List Char) : Option (Option Char × Nat) :=
  if c.toNat < 32 then none
  else if c ≠ '\\' then some (some c, 0)
  else match rest with
    | 'u' :: x₁ :: x₂ :: x₃ :: x₄ :: more => do
      let n ← hex4? x₁ x₂ x₃ x₄
      if isLow n then some (none, 5)
      else if !isHigh n then some (some (Char.ofNat n), 5)
      else match more with
        | '\\' :: 'u' :: y₁ :: y₂ :: y₃ :: y₄ :: _ =>
          let m ← hex4? y₁ y₂ y₃ y₄
          if isLow m then
            some (some (Char.ofNat (0x10000 + (n - 0xD800) * 0x400 + (m - 0xDC00))), 11)
          else some (none, 5)
        | _ => some (none, 5)
    | e :: _ => (shortEscape? e).map fun c => (some c, 1)
    | [] => none

def stringUnits : List Char → Option (List (Option Char) × List Char)
  | [] => none
  | c :: rest =>
    if c = '"' then some ([], rest)
    else
      match stringUnit? c rest with
      | none => none
      | some (unit, n) => (stringUnits (rest.drop n)).map fun (units, more) => (unit :: units, more)
termination_by cs => cs.length
decreasing_by simp only [List.length_cons, List.length_drop]; omega

def readString (cs : List Char) : Option (Option String × List Char) :=
  (stringUnits cs).map fun (units, rest) => ((units.mapM id).map String.ofList, rest)

def digits? (cs : List Char) : Option (List Char × List Char) :=
  match cs.takeWhile Char.isDigit with
  | [] => none
  | ds => some (ds, cs.dropWhile Char.isDigit)

def whole? : List Char → Option (List Char × List Char)
  | '0' :: rest => if rest.head?.any Char.isDigit then none else some (['0'], rest)
  | cs => digits? cs

def fraction? : List Char → Option (Bool × List Char)
  | '.' :: rest => (digits? rest).map fun (_, more) => (true, more)
  | cs => some (false, cs)

def exponentDigits? : List Char → Option (List Char × List Char)
  | '+' :: rest | '-' :: rest => digits? rest
  | cs => digits? cs

def exponent? : List Char → Option (Bool × List Char)
  | 'e' :: rest | 'E' :: rest => (exponentDigits? rest).map fun (_, more) => (true, more)
  | cs => some (false, cs)

def maxNat : Nat := 18446744073709551615

def natOfDigits (ds : List Char) : Nat := ds.foldl (fun n c => n * 10 + (c.toNat - 48)) 0

def readNumber (negative : Bool) (cs : List Char) : Option (Value × List Char) := do
  let (ds, rest) ← whole? cs
  let (hasFraction, rest) ← fraction? rest
  let (hasExponent, rest) ← exponent? rest
  let n := natOfDigits ds
  let plain := !negative && !hasFraction && !hasExponent && n ≤ maxNat
  return (if plain then .nat n else .otherNumber, rest)

mutual

/-- Reads one value. Each call uses up one unit of fuel, and of two nested calls at least one
reads a character. -/
def readValue : Nat → List Char → Option (Value × List Char)
  | 0, _ => none
  | fuel + 1, cs =>
    match skipBlank cs with
    | 'n' :: 'u' :: 'l' :: 'l' :: rest => some (.null, rest)
    | 't' :: 'r' :: 'u' :: 'e' :: rest => some (.bool true, rest)
    | 'f' :: 'a' :: 'l' :: 's' :: 'e' :: rest => some (.bool false, rest)
    | '"' :: rest => (readString rest).map fun (s, more) => (.str s, more)
    | '[' :: rest =>
      match skipBlank rest with
      | ']' :: more => some (.array [], more)
      | _ => (readItems fuel rest).map fun (items, more) => (.array items, more)
    | '\x7b' :: rest =>
      match skipBlank rest with
      | '\x7d' :: more => some (.object [], more)
      | _ => (readMembers fuel rest).map fun (members, more) => (.object members, more)
    | '-' :: rest => readNumber true rest
    | rest => readNumber false rest

def readItems : Nat → List Char → Option (List Value × List Char)
  | 0, _ => none
  | fuel + 1, cs =>
    match readValue fuel cs with
    | none => none
    | some (v, rest) =>
      match skipBlank rest with
      | ',' :: more => (readItems fuel more).map fun (items, more) => (v :: items, more)
      | ']' :: more => some ([v], more)
      | _ => none

def readMembers : Nat → List Char → Option (List (Option String × Value) × List Char)
  | 0, _ => none
  | fuel + 1, cs =>
    match skipBlank cs with
    | '"' :: rest =>
      match readString rest with
      | none => none
      | some (key, rest) =>
        match skipBlank rest with
        | ':' :: rest =>
          match readValue fuel rest with
          | none => none
          | some (v, rest) =>
            match skipBlank rest with
            | ',' :: more =>
              (readMembers fuel more).map fun (members, more) => ((key, v) :: members, more)
            | '\x7d' :: more => some ([(key, v)], more)
            | _ => none
        | _ => none
    | _ => none

end

def parse? (text : String) : Option Value :=
  let cs := text.toList
  match readValue (2 * cs.length + 2) cs with
  | some (v, rest) => if (skipBlank rest).isEmpty then some v else none
  | none => none

end Ramify.Json
