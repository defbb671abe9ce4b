import Mathlib.Data.List.Basic
import Ramify.Proofs.C.Digits

/-! What a body denotes, unit by unit. A unit is told by its bytes and by what may not follow it, since digits
are read as far as they go. The decoder takes the unit that a body begins with, so its bytes are those of the
units, and it fails where no unit stands. -/

namespace Ramify.C.Escape

/-- A body that begins with an escape by digits, the number of these digits and the bytes behind them: the
longest run of octal digits up to three, or of hexadecimal digits behind an `x`. -/
inductive Numeric : List UInt8 → ℕ → List UInt8 → Prop
  | octal {digits rest : List UInt8} {n : ℕ} : digits ≠ [] → digits.length ≤ 3 → Positional 8 digits n →
      (digits.length = 3 ∨ ∀ b ∈ rest.head?, isOctalDigit b = false) → Numeric (92 :: (digits ++ rest)) n rest
  | hex {digits rest : List UInt8} {n : ℕ} : digits ≠ [] → Positional 16 digits n →
      (∀ b ∈ rest.head?, isHexDigit b = false) → Numeric (92 :: 120 :: (digits ++ rest)) n rest

/-- A body that begins with a well-formed unit, the byte it denotes and the bytes behind it. -/
inductive Unit : List UInt8 → UInt8 → List UInt8 → Prop
  | plain {b : UInt8} {rest : List UInt8} : b ≠ 92 → Unit (b :: rest) b rest
  | letter {e b : UInt8} {rest : List UInt8} : (e, b) ∈ letters → Unit (92 :: e :: rest) b rest
  | numeric {body rest : List UInt8} {n : ℕ} : Numeric body n rest → n ≤ 255 → Unit body n.toUInt8 rest

inductive Units : List UInt8 → List UInt8 → List UInt8 → Prop
  | nil {body : List UInt8} : Units body [] body
  | cons {body out rest last : List UInt8} {b : UInt8} : Unit body b rest → Units rest out last →
      Units body (b :: out) last

section

variable {p : UInt8 → Bool} {run rest : List UInt8}

lemma takeWhile_take_run {k : ℕ} (hrun : ∀ b ∈ run, p b = true) (hlength : run.length ≤ k)
    (hstop : run.length = k ∨ ∀ b ∈ rest.head?, p b = false) : ((run ++ rest).take k).takeWhile p = run := by
  obtain ⟨m, rfl⟩ := Nat.exists_eq_add_of_le hlength
  rw [List.take_length_add_append]
  apply takeWhile_run hrun
  rcases hstop with hfull | hstop
  · obtain rfl : m = 0 := by omega
    simp
  · intro b hb
    apply hstop
    cases m <;> cases rest <;> simp_all

lemma exists_run (p : UInt8 → Bool) (k : ℕ) (bytes : List UInt8) : ∃ run rest, bytes = run ++ rest ∧
    (∀ b ∈ run, p b = true) ∧ run.length ≤ k ∧ (run.length = k ∨ ∀ b ∈ rest.head?, p b = false) := by
  induction bytes generalizing k with
  | nil => exact ⟨[], [], by simp⟩
  | cons a bytes ih =>
    rcases k with _ | k
    · exact ⟨[], a :: bytes, by simp⟩
    · by_cases ha : p a = true
      · obtain ⟨run, rest, rfl, hrun, hlength, hstop⟩ := ih k
        exact ⟨a :: run, rest, by simp_all⟩
      · exact ⟨[], a :: bytes, by simp_all⟩

end

variable {body tail rest : List UInt8} {e b : UInt8} {n : ℕ}

lemma mem_letters_iff : (e, b) ∈ letters ↔ letters.lookup e = some b := by
  constructor
  · have hall : letters.all fun letter => letters.lookup letter.1 == some letter.2 := by decide
    exact fun hmem => eq_of_beq (List.all_eq_true.mp hall (e, b) hmem)
  · intro h
    obtain ⟨before, after, hletters, _⟩ := List.lookup_eq_some_iff.mp h
    simp [hletters]

lemma lookup_octalDigit (h : isOctalDigit e = true) : letters.lookup e = none := by
  have hall : letters.all fun letter => !isOctalDigit letter.1 := by decide
  rw [List.lookup_eq_none_iff]
  intro letter hmem
  rw [bne_iff_ne]
  rintro rfl
  simpa [h] using List.all_eq_true.mp hall letter hmem

lemma Numeric.after (h : Numeric body n rest) : ∃ tail k, body = 92 :: tail ∧
    afterBackslash tail = (toByte n).map (·, k) ∧ tail.drop k = rest := by
  cases h with
  | @octal digits _ _ hsome hlength hdigits hstop =>
    obtain ⟨hoctal, rfl⟩ := positional_octal_iff.mp hdigits
    rcases digits with _ | ⟨e, more⟩
    · exact absurd rfl hsome
    · rw [List.forall_mem_cons] at hoctal
      have hrun : ((more ++ rest).take 2).takeWhile isOctalDigit = more :=
        takeWhile_take_run hoctal.2 (Nat.le_of_succ_le_succ hlength) (by simpa using hstop)
      refine ⟨_, more.length + 1, rfl, ?_, by simp⟩
      rw [List.cons_append, afterBackslash, lookup_octalDigit hoctal.1]
      simp only [hoctal.1, if_true, hrun, List.length_cons]
      cases toByte (valueOf 8 (e :: more)) <;> rfl
  | @hex digits _ _ hsome hdigits hstop =>
    obtain ⟨hhex, rfl⟩ := positional_hex_iff.mp hdigits
    refine ⟨_, digits.length + 1, rfl, ?_, by simp⟩
    have hlookup : letters.lookup 120 = none := rfl
    have hoctal : isOctalDigit 120 = false := rfl
    simp only [afterBackslash, hlookup, hoctal, takeWhile_run hhex hstop, List.isEmpty_iff, hsome]
    cases toByte (valueOf 16 digits) <;> rfl

lemma Numeric.decode (h : Numeric body n rest) : decode body =
    if n ≤ 255 then (Escape.decode rest).map (n.toUInt8 :: ·) else .error .escapeOutOfRange := by
  obtain ⟨tail, k, rfl, hafter, rfl⟩ := h.after
  rw [Escape.decode, if_pos rfl, hafter, toByte]
  by_cases hle : n ≤ 255
  · rw [if_pos hle, if_pos (by omega)]
    rfl
  · rw [if_neg hle, if_neg (by omega)]
    rfl

lemma Unit.decode (h : Unit body b rest) : decode body = (Escape.decode rest).map (b :: ·) := by
  cases h with
  | plain hb => rw [Escape.decode, if_neg hb]
  | letter he =>
    rw [Escape.decode, if_pos rfl, afterBackslash, mem_letters_iff.mp he]
    rfl
  | numeric hnumeric hle => rw [hnumeric.decode, if_pos hle]

lemma Numeric.length_lt (h : Numeric body n rest) : rest.length < body.length := by
  cases h with
  | octal | hex =>
    simp only [List.length_cons, List.length_append]
    omega

lemma Unit.length_lt (h : Unit body b rest) : rest.length < body.length := by
  cases h with
  | plain => simp
  | letter =>
    simp only [List.length_cons]
    omega
  | numeric hnumeric => exact hnumeric.length_lt

variable {out last : List UInt8}

lemma Units.decode (h : Units body out last) : decode body = (Escape.decode last).map (out ++ ·) := by
  induction h with
  | nil => cases Escape.decode _ <;> rfl
  | @cons _ _ _ last _ hunit _ ih =>
    rw [hunit.decode, ih]
    cases Escape.decode last <;> rfl

end Ramify.C.Escape
