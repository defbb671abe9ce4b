/-! Bytes as UTF-8. A malformed sequence is cut at its longest prefix that could still
have been completed, and each such piece counts as one failure. -/

namespace Ramify.Text.Utf8

def lead? (b : UInt8) : Option (Nat × Nat × UInt8 × UInt8) :=
  if b < 0x80 then some (0, b.toNat, 0x80, 0xBF)
  else if b < 0xC2 then none
  else if b < 0xE0 then some (1, b.toNat % 32, 0x80, 0xBF)
  else if b < 0xF0 then
    some (2, b.toNat % 16, if b = 0xE0 then 0xA0 else 0x80, if b = 0xED then 0x9F else 0xBF)
  else if b < 0xF5 then
    some (3, b.toNat % 8, if b = 0xF0 then 0x90 else 0x80, if b = 0xF4 then 0x8F else 0xBF)
  else none

def continuation : Nat → Nat → UInt8 → UInt8 → List UInt8 → Option Nat × List UInt8
  | 0, code, _, _, rest => (some code, rest)
  | _ + 1, _, _, _, [] => (none, [])
  | n + 1, code, lo, hi, b :: rest =>
    if lo ≤ b && b ≤ hi then continuation n (code * 64 + b.toNat % 64) 0x80 0xBF rest
    else (none, b :: rest)

theorem length_continuation_le (n code : Nat) (lo hi : UInt8) (bytes : List UInt8) :
    (continuation n code lo hi bytes).2.length ≤ bytes.length := by
  induction n generalizing code lo hi bytes with
  | zero => simp [continuation]
  | succ n ih =>
    cases bytes with
    | nil => simp [continuation]
    | cons b rest =>
      simp only [continuation]
      split
      · exact Nat.le_succ_of_le (ih ..)
      · simp

def first (b : UInt8) (rest : List UInt8) : Option Char × List UInt8 :=
  match lead? b with
  | none => (none, rest)
  | some (n, code, lo, hi) =>
    let (code?, rest) := continuation n code lo hi rest
    (code?.map Char.ofNat, rest)

theorem length_first_le (b : UInt8) (rest : List UInt8) :
    (first b rest).2.length ≤ rest.length := by
  unfold first
  split
  · simp
  · exact length_continuation_le ..

def pieces : List UInt8 → List (Option Char)
  | [] => []
  | b :: rest => (first b rest).1 :: pieces (first b rest).2
termination_by bytes => bytes.length
decreasing_by
  have := length_first_le b rest
  simp only [List.length_cons]
  omega

def decode? (bytes : List UInt8) : Option String :=
  ((pieces bytes).mapM id).map String.ofList

def decodeLossy (bytes : List UInt8) : String :=
  String.ofList ((pieces bytes).map (·.getD (Char.ofNat 0xFFFD)))

def encode (s : String) : List UInt8 := s.toUTF8.toList

end Ramify.Text.Utf8
