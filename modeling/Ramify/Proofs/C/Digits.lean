import Mathlib.Data.List.Forall2
import Mathlib.Data.Nat.Digits.Defs
import Ramify.C.Escape
import Ramify.C.Numeral

namespace Ramify.C

def IsDigit (b : UInt8) (d : ℕ) : Prop :=
  d < 10 ∧ b.toNat = 48 + d ∨ 10 ≤ d ∧ d < 16 ∧ (b.toNat = 55 + d ∨ b.toNat = 87 + d)

def Positional (base : ℕ) (bytes : List UInt8) (n : ℕ) : Prop :=
  ∃ digits, List.Forall₂ IsDigit bytes digits ∧ (∀ d ∈ digits, d < base) ∧ Nat.ofDigits base digits.reverse = n

lemma takeWhile_run {α : Type} {p : α → Bool} {run rest : List α} (hrun : ∀ b ∈ run, p b = true)
    (hstop : ∀ b ∈ rest.head?, p b = false) : (run ++ rest).takeWhile p = run := by
  rw [List.takeWhile_append_of_pos hrun]
  cases rest <;> simp_all

lemma isDigit_iff {b : UInt8} {d : ℕ} : IsDigit b d ↔ isHexDigit b = true ∧ Escape.digitValue b = d := by
  simp only [IsDigit, isHexDigit, isDigit, Escape.digitValue, Bool.or_eq_true, Bool.and_eq_true, decide_eq_true_eq,
    UInt8.le_iff_toNat_le, UInt8.lt_iff_toNat_lt, UInt8.toNat_ofNat]
  split
  · omega
  · split <;> omega

lemma isOctalDigit_iff {b : UInt8} : isOctalDigit b = true ↔ isHexDigit b = true ∧ Escape.digitValue b < 8 := by
  simp only [isOctalDigit, isHexDigit, isDigit, Escape.digitValue, Bool.or_eq_true, Bool.and_eq_true,
    decide_eq_true_eq, UInt8.le_iff_toNat_le, UInt8.lt_iff_toNat_lt, UInt8.toNat_ofNat]
  split
  · omega
  · split <;> omega

lemma isDecimalDigit_iff {b : UInt8} : isDigit b = true ↔ isHexDigit b = true ∧ Escape.digitValue b < 10 := by
  simp only [isHexDigit, isDigit, Escape.digitValue, Bool.or_eq_true, Bool.and_eq_true, decide_eq_true_eq,
    UInt8.le_iff_toNat_le, UInt8.lt_iff_toNat_lt, UInt8.toNat_ofNat]
  split
  · omega
  · split <;> omega

lemma digitValue_lt {b : UInt8} (h : isHexDigit b = true) : Escape.digitValue b < 16 := by
  obtain ⟨_, _⟩ | ⟨_, _, _⟩ := isDigit_iff.mpr ⟨h, rfl⟩ <;> omega

section

variable {base n : ℕ} {bytes : List UInt8}

lemma ofDigits_digitValue : Nat.ofDigits base (bytes.map Escape.digitValue).reverse = Escape.valueOf base bytes := by
  simp only [Nat.ofDigits_eq_foldr, List.foldr_reverse, List.foldl_map, Escape.valueOf, Nat.cast_id]
  congr 1
  funext value b
  ring

lemma forall₂_isDigit {digits : List ℕ} : List.Forall₂ IsDigit bytes digits ↔
    (∀ b ∈ bytes, isHexDigit b = true) ∧ bytes.map Escape.digitValue = digits := by
  induction bytes generalizing digits with
  | nil => simp
  | cons b bytes ih =>
    cases digits with
    | nil => simp
    | cons d digits => simp [ih, isDigit_iff, and_assoc, and_left_comm]

lemma positional_iff : Positional base bytes n ↔
    (∀ b ∈ bytes, isHexDigit b = true ∧ Escape.digitValue b < base) ∧ Escape.valueOf base bytes = n := by
  simp only [Positional, forall₂_isDigit]
  constructor
  · rintro ⟨_, ⟨hhex, rfl⟩, hlt, rfl⟩
    exact ⟨fun b hb => ⟨hhex b hb, hlt _ (List.mem_map_of_mem hb)⟩, ofDigits_digitValue.symm⟩
  · rintro ⟨hbytes, rfl⟩
    refine ⟨_, ⟨fun b hb => (hbytes b hb).1, rfl⟩, ?_, ofDigits_digitValue⟩
    simpa using fun b hb => (hbytes b hb).2

lemma positional_octal_iff : Positional 8 bytes n ↔
    (∀ b ∈ bytes, isOctalDigit b = true) ∧ Escape.valueOf 8 bytes = n := by
  simp only [positional_iff, isOctalDigit_iff]

lemma positional_decimal_iff : Positional 10 bytes n ↔
    (∀ b ∈ bytes, isDigit b = true) ∧ Escape.valueOf 10 bytes = n := by
  simp only [positional_iff, isDecimalDigit_iff]

lemma positional_hex_iff : Positional 16 bytes n ↔
    (∀ b ∈ bytes, isHexDigit b = true) ∧ Escape.valueOf 16 bytes = n := by
  have hdigit (b : UInt8) : isHexDigit b = true ∧ Escape.digitValue b < 16 ↔ isHexDigit b = true :=
    and_iff_left_of_imp digitValue_lt
  simp only [positional_iff, hdigit]

lemma digitValue?_eq (b : UInt8) :
    Numeral.digitValue? (Char.ofNat b.toNat) = if isHexDigit b then some (Escape.digitValue b) else none := by
  have hall : ∀ n < 256, Numeral.digitValue? (Char.ofNat n) =
      if isHexDigit n.toUInt8 then some (Escape.digitValue n.toUInt8) else none := by decide +kernel
  simpa using hall b.toNat b.toNat_lt

lemma natural?_eq_some : Numeral.natural? base (asciiChars bytes) = some n ↔ Positional base bytes n := by
  rw [positional_iff]
  -- With any start, since the induction goes from the front and the places are added up on the way.
  have hfold (start : ℕ) : (asciiChars bytes).foldlM (fun value c => (Numeral.digitValue? c).bind fun d =>
      if d < base then some (value * base + d) else none) start = some n ↔
      (∀ b ∈ bytes, isHexDigit b = true ∧ Escape.digitValue b < base) ∧
        bytes.foldl (fun value b => value * base + Escape.digitValue b) start = n := by
    induction bytes generalizing start with
    | nil => simp [asciiChars]
    | cons b bytes ih =>
      rw [asciiChars] at ih ⊢
      by_cases hhex : isHexDigit b = true <;> by_cases hlt : Escape.digitValue b < base <;>
        simp [digitValue?_eq, hhex, hlt, ih]
  exact hfold 0

end

end Ramify.C
