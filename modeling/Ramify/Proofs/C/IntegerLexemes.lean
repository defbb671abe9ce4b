import Ramify.Proofs.C.Digits
import Ramify.Proofs.Text.LongestRuns

/-! The lexemes of integer constants. The states of the automaton that stand for integers tell the shape of what
was read: the digits of one of three bases and letters behind them. The value of such a lexeme is the number of
its digits, if its letters are a suffix that selects a type large enough. -/

namespace Ramify.C.Numeral

def isSuffixByte (b : UInt8) : Bool := either 'u' 'U' b || either 'l' 'L' b

def longs : List (List UInt8) := [[108], [76], [108, 108], [76, 76]]

inductive Suffix : List UInt8 → IntegerType → Prop
  | none : Suffix [] .i32
  | unsigned {u : UInt8} : either 'u' 'U' u = true → Suffix [u] .u32
  | long {l : List UInt8} : l ∈ longs → Suffix l .i64
  | unsignedLong {u : UInt8} {l : List UInt8} : either 'u' 'U' u = true → l ∈ longs → Suffix (u :: l) .u64
  | longUnsigned {u : UInt8} {l : List UInt8} : either 'u' 'U' u = true → l ∈ longs → Suffix (l ++ [u]) .u64

inductive Digits : List UInt8 → ℕ → Prop
  | zero : Digits [48] 0
  | decimal {b : UInt8} {digits : List UInt8} {n : ℕ} : b ≠ 48 → Positional 10 (b :: digits) n →
      Digits (b :: digits) n
  | octal {digits : List UInt8} {n : ℕ} : digits ≠ [] → Positional 8 digits n → Digits (48 :: digits) n
  | hex {x : UInt8} {digits : List UInt8} {n : ℕ} : either 'x' 'X' x = true → digits ≠ [] → Positional 16 digits n →
      Digits (48 :: x :: digits) n

def Denotes (lexeme : List UInt8) (n : ℕ) (type : IntegerType) : Prop :=
  ∃ digits suffix, lexeme = digits ++ suffix ∧ Digits digits n ∧ Suffix suffix type

def isPart : State → Bool
  | .start | .hexPrefix => true
  | s => isInteger s

lemma isPart_of_isInteger {s : State} (h : isInteger s = true) : isPart s = true := by
  cases s <;> first | rfl | cases h

inductive Edge : State → UInt8 → State → Prop
  | zero : Edge .start 48 .zero
  | decimal {b : UInt8} : b ≠ 48 → isDigit b = true → Edge .start b .decimal
  | digit {b : UInt8} : isDigit b = true → Edge .decimal b .decimal
  | octal {s : State} {b : UInt8} : s = .zero ∨ s = .octal → isDigit b = true → Edge s b .octal
  | hexPrefix {x : UInt8} : either 'x' 'X' x = true → Edge .zero x .hexPrefix
  | hex {s : State} {b : UInt8} : s = .hexPrefix ∨ s = .hex → isHexDigit b = true → Edge s b .hex
  | suffix {s : State} {b : UInt8} : isInteger s = true → isSuffixByte b = true → Edge s b .intSuffix

inductive Shape : State → List UInt8 → Prop
  | start : Shape .start []
  | zero : Shape .zero [48]
  | decimal {b : UInt8} {digits : List UInt8} : b ≠ 48 → (∀ d ∈ b :: digits, isDigit d = true) →
      Shape .decimal (b :: digits)
  | octal {digits : List UInt8} : digits ≠ [] → (∀ d ∈ digits, isDigit d = true) → Shape .octal (48 :: digits)
  | hexPrefix {x : UInt8} : either 'x' 'X' x = true → Shape .hexPrefix [48, x]
  | hex {x : UInt8} {digits : List UInt8} : either 'x' 'X' x = true → digits ≠ [] →
      (∀ d ∈ digits, isHexDigit d = true) → Shape .hex (48 :: x :: digits)
  | suffix {s : State} {digits suffix : List UInt8} : Shape s digits → isInteger s = true → s ≠ .intSuffix →
      suffix ≠ [] → (∀ b ∈ suffix, isSuffixByte b = true) → Shape .intSuffix (digits ++ suffix)

variable {s t : State} {b : UInt8} {lexeme : List UInt8}

lemma edge_of_next (h : automaton.next s b = .goto t) (ht : isPart t = true) : Edge s b t := by
  by_cases hzero : s = .start ∧ b = 48
  · obtain ⟨rfl, rfl⟩ := hzero
    cases h
    exact .zero
  obtain ⟨⟨c, holds⟩, hmem, hholds, hedge⟩ := Automaton.exists_edge h
  -- One case for each entry of the table; those that lead elsewhere go first.
  fin_cases hmem <;> cases s <;> cases hedge
  all_goals first
    | cases ht; done
    | exact absurd ⟨rfl, by simpa using hholds⟩ hzero
    | exact .decimal (fun hb => hzero ⟨rfl, hb⟩) hholds
    | exact .digit hholds
    | exact .octal (by simp) hholds
    | exact .hexPrefix hholds
    | exact .hex (by simp) hholds
    | exact .suffix rfl (by simp_all [isSuffixByte])

lemma eq_of_either {c d : Char} (h : either c d b = true) : b = c.toUInt8 ∨ b = d.toUInt8 := by
  simpa [either] using h

lemma next_of_digit (hzero : b = 48 → edge s .zero = none) (hedge : edge s .digit = some t) (hb : isDigit b = true) :
    automaton.next s b = .goto t := by
  refine Automaton.next_eq_goto_iff.mpr ⟨.digit, ⟨[(.zero, (· == 48))], isDigit, _, rfl, hb, ?_, ?_⟩, rfl, hedge⟩
  · simp [Automaton.Concerns, automaton, hedge]
  · simpa [Automaton.Concerns, automaton] using hzero

lemma next_of_hexDigit (hzero : edge s .zero = none) (hdigit : edge s .digit = none)
    (hedge : edge s .hexDigit = some t) (hb : isHexDigit b = true) : automaton.next s b = .goto t := by
  refine Automaton.next_eq_goto_iff.mpr
    ⟨.hexDigit, ⟨[(.zero, (· == 48)), (.digit, isDigit)], isHexDigit, _, rfl, hb, ?_, ?_⟩, rfl, hedge⟩
  · simp [Automaton.Concerns, automaton, hedge]
  · simp [Automaton.Concerns, automaton, hzero, hdigit]

lemma next_of_edge (h : Edge s b t) : automaton.next s b = .goto t := by
  cases h with
  | zero => rfl
  | decimal hb hdigit => exact next_of_digit (fun h => absurd h hb) rfl hdigit
  | digit hdigit => exact next_of_digit (fun _ => rfl) rfl hdigit
  | octal hs hdigit => rcases hs with rfl | rfl <;> exact next_of_digit (fun _ => rfl) rfl hdigit
  | hexPrefix hx => rcases eq_of_either hx with rfl | rfl <;> rfl
  | hex hs hdigit => rcases hs with rfl | rfl <;> exact next_of_hexDigit rfl rfl rfl hdigit
  | suffix hs hb =>
    rw [isSuffixByte, Bool.or_eq_true] at hb
    rcases hb with hb | hb <;> rcases eq_of_either hb with rfl | rfl <;> cases s <;> cases hs <;> rfl

lemma Edge.isPart (h : Edge s b t) : isPart s = true := by
  cases h with
  | octal hs => rcases hs with rfl | rfl <;> rfl
  | hex hs => rcases hs with rfl | rfl <;> rfl
  | suffix hs => exact isPart_of_isInteger hs
  | zero | decimal | digit | hexPrefix => rfl

lemma Shape.snoc (h : Shape s lexeme) (hedge : Edge s b t) : Shape t (lexeme ++ [b]) := by
  cases hedge with
  | zero => cases h; exact .zero
  | decimal hb hdigit => cases h; exact .decimal hb (by simpa using hdigit)
  | digit hdigit =>
    cases h with
    | decimal hb hdigits => exact .decimal hb (by simp_all [or_imp])
  | octal hs hdigit =>
    rcases hs with rfl | rfl
    · cases h
      exact .octal (by simp) (by simpa using hdigit)
    · cases h with
      | octal hsome hdigits => exact .octal (by simp) (by simp_all [or_imp])
  | hexPrefix hx => cases h; exact .hexPrefix hx
  | hex hs hdigit =>
    rcases hs with rfl | rfl
    · cases h with
      | hexPrefix hx => exact .hex hx (by simp) (by simpa using hdigit)
    · cases h with
      | hex hx hsome hdigits => exact .hex hx (by simp) (by simp_all [or_imp])
  | suffix hs hb =>
    by_cases hsuffix : s = .intSuffix
    · subst hsuffix
      cases h with
      | suffix hdigits hs hne hsome hletters =>
        rw [List.append_assoc]
        exact .suffix hdigits hs hne (by simp) (by simp_all [or_imp])
    · exact .suffix h hs hsuffix (by simp) (by simpa using hb)

lemma shape_of_path (h : automaton.Path .start lexeme s) (hs : isPart s = true) : Shape s lexeme := by
  -- From the right: the last edge tells which shape grew, and that it starts in a state of these.
  induction lexeme using List.reverseRecOn generalizing s with
  | nil => cases h; exact .start
  | append_singleton lexeme b ih =>
    obtain ⟨t, hpath, hnext⟩ := Automaton.path_concat_iff.mp h
    have hedge := edge_of_next hnext hs
    exact (ih hpath hedge.isPart).snoc hedge

lemma Shape.path (h : Shape s lexeme) : automaton.Path .start lexeme s := by
  induction h with
  | start => exact .nil
  | zero => exact .cons (next_of_edge .zero) .nil
  | @decimal b digits hb hdigits =>
    rw [List.forall_mem_cons] at hdigits
    exact .cons (next_of_edge (.decimal hb hdigits.1))
      (Automaton.path_loop fun d hd => next_of_edge (.digit (hdigits.2 d hd)))
  | @octal digits hsome hdigits =>
    rcases digits with _ | ⟨d, digits⟩
    · exact absurd rfl hsome
    · rw [List.forall_mem_cons] at hdigits
      exact .cons (next_of_edge .zero) (.cons (next_of_edge (.octal (Or.inl rfl) hdigits.1))
        (Automaton.path_loop fun d hd => next_of_edge (.octal (Or.inr rfl) (hdigits.2 d hd))))
  | hexPrefix hx => exact .cons (next_of_edge .zero) (.cons (next_of_edge (.hexPrefix hx)) .nil)
  | @hex x digits hx hsome hdigits =>
    rcases digits with _ | ⟨d, digits⟩
    · exact absurd rfl hsome
    · rw [List.forall_mem_cons] at hdigits
      exact .cons (next_of_edge .zero) (.cons (next_of_edge (.hexPrefix hx))
        (.cons (next_of_edge (.hex (Or.inl rfl) hdigits.1))
          (Automaton.path_loop fun d hd => next_of_edge (.hex (Or.inr rfl) (hdigits.2 d hd)))))
  | @suffix s digits suffix _ hs _ hsome hletters ih =>
    rcases suffix with _ | ⟨b, suffix⟩
    · exact absurd rfl hsome
    · rw [List.forall_mem_cons] at hletters
      exact ih.append (.cons (next_of_edge (.suffix hs hletters.1))
        (Automaton.path_loop fun b hb => next_of_edge (.suffix rfl (hletters.2 b hb))))

section

variable {suffix digits letters : List UInt8} {u : UInt8} {n : ℕ} {type : IntegerType}

lemma ofNat_toNat_injective : Function.Injective fun b : UInt8 => Char.ofNat b.toNat := by
  have hcode : ∀ n < 256, (Char.ofNat n).toNat = n := by decide +kernel
  intro a b hab
  apply UInt8.toNat_inj.mp
  rw [← hcode _ a.toNat_lt, ← hcode _ b.toNat_lt]
  exact congrArg Char.toNat hab

lemma asciiChars_injective : Function.Injective asciiChars := List.map_injective_iff.mpr ofNat_toNat_injective

lemma isLong_iff : isLong (asciiChars letters) = true ↔ letters ∈ longs := by
  constructor
  · intro h
    have hspelled : ∃ l ∈ longs, asciiChars letters = asciiChars l := by
      unfold isLong at h
      split at h
      · exact ⟨[108], by simp [longs], ‹_›⟩
      · exact ⟨[76], by simp [longs], ‹_›⟩
      · exact ⟨[108, 108], by simp [longs], ‹_›⟩
      · exact ⟨[76, 76], by simp [longs], ‹_›⟩
      · cases h
    obtain ⟨l, hl, heq⟩ := hspelled
    exact asciiChars_injective heq ▸ hl
  · intro h
    fin_cases h <;> rfl

lemma either_iff {c d : Char} (hc : Char.ofNat c.toUInt8.toNat = c) (hd : Char.ofNat d.toUInt8.toNat = d) :
    either c d b = true ↔ Char.ofNat b.toNat = c ∨ Char.ofNat b.toNat = d := by
  have hchar {e : Char} (he : Char.ofNat e.toUInt8.toNat = e) : Char.ofNat b.toNat = e ↔ b = e.toUInt8 := by
    rw [← ofNat_toNat_injective.eq_iff (a := b), he]
  rw [hchar hc, hchar hd]
  simp [either]

lemma either_u : either 'u' 'U' b = true ↔ Char.ofNat b.toNat = 'u' ∨ Char.ofNat b.toNat = 'U' := either_iff rfl rfl

lemma either_l : either 'l' 'L' b = true ↔ Char.ofNat b.toNat = 'l' ∨ Char.ofNat b.toNat = 'L' := either_iff rfl rfl

lemma withoutUnsigned?_cons (hu : either 'u' 'U' u = true) :
    withoutUnsigned? (asciiChars (u :: letters)) = some (asciiChars letters) := by
  rcases eq_of_either hu with rfl | rfl <;> rfl

lemma withoutUnsigned?_concat (hfirst : ∀ b ∈ (letters ++ [u]).head?, ¬ either 'u' 'U' b = true) :
    withoutUnsigned? (asciiChars (letters ++ [u])) =
      if either 'u' 'U' u = true then some (asciiChars letters) else none := by
  have hhead : ∀ c ∈ (asciiChars (letters ++ [u])).head?, c ≠ 'u' ∧ c ≠ 'U' := by
    simp only [asciiChars, List.head?_map, Option.mem_map]
    rintro _ ⟨b, hb, rfl⟩
    exact not_or.mp (either_u.not.mp (hfirst b hb))
  have hlast : (asciiChars (letters ++ [u])).getLast? = some (Char.ofNat u.toNat) := by simp [asciiChars]
  have hfront : (asciiChars (letters ++ [u])).dropLast = asciiChars letters := by simp [asciiChars]
  rw [withoutUnsigned?.eq_def]
  split
  · rename_i heq
    simp [heq] at hhead
  · rename_i heq
    simp [heq] at hhead
  · rw [hlast, hfront]
    simp only [either_u]
    split <;> simp_all

lemma integerType?_eq_some : integerType? (asciiChars suffix) = some type ↔ Suffix suffix type := by
  have hempty (l : List UInt8) : (asciiChars l).isEmpty = true ↔ l = [] := by simp [asciiChars]
  constructor
  · intro h
    unfold integerType? at h
    split at h
    · obtain rfl := (hempty _).mp ‹_›
      cases h
      exact .none
    rename_i hsome
    split at h
    · cases h
      exact .long (isLong_iff.mp ‹_›)
    obtain ⟨rest, hrest, htype⟩ := Option.bind_eq_some_iff.mp h
    have hcases {l : List UInt8} (hl : rest = asciiChars l) : l = [] ∧ type = .u32 ∨ l ∈ longs ∧ type = .u64 := by
      subst hl
      simp only [hempty, isLong_iff] at htype
      split at htype
      · exact Or.inl ⟨‹_›, (Option.some.inj htype).symm⟩
      · split at htype
        · exact Or.inr ⟨‹_›, (Option.some.inj htype).symm⟩
        · cases htype
    -- A letter in front goes first; only where there is none the last one is taken off.
    by_cases hfirst : ∃ u l, suffix = u :: l ∧ either 'u' 'U' u = true
    · obtain ⟨u, l, rfl, hu⟩ := hfirst
      rw [withoutUnsigned?_cons hu] at hrest
      rcases hcases (Option.some.inj hrest).symm with ⟨rfl, rfl⟩ | ⟨hl, rfl⟩
      · exact .unsigned hu
      · exact .unsignedLong hu hl
    · obtain ⟨l, u, rfl⟩ := List.eq_nil_or_concat' suffix |>.resolve_left ((hempty _).not.mp hsome)
      rw [withoutUnsigned?_concat] at hrest
      · split at hrest
        · rename_i hu
          rcases hcases (Option.some.inj hrest).symm with ⟨rfl, rfl⟩ | ⟨hl, rfl⟩
          · exact .unsigned hu
          · exact .longUnsigned hu hl
        · cases hrest
      · intro b hb hu
        obtain ⟨l', hl'⟩ := List.head?_eq_some_iff.mp hb
        exact hfirst ⟨b, l', hl', hu⟩
  · intro h
    cases h with
    | none => rfl
    | unsigned hu => rcases eq_of_either hu with rfl | rfl <;> rfl
    | long hl => fin_cases hl <;> rfl
    | unsignedLong hu hl => rcases eq_of_either hu with rfl | rfl <;> fin_cases hl <;> rfl
    | longUnsigned hu hl => rcases eq_of_either hu with rfl | rfl <;> fin_cases hl <;> rfl

lemma Suffix.isSuffixByte (h : Suffix suffix type) : ∀ b ∈ suffix, Numeral.isSuffixByte b = true := by
  have hlong {l : List UInt8} (hl : l ∈ longs) : ∀ b ∈ l, Numeral.isSuffixByte b = true := by
    fin_cases hl <;> simp <;> rfl
  have hunsigned {u : UInt8} (hu : either 'u' 'U' u = true) : Numeral.isSuffixByte u = true := by
    simp [Numeral.isSuffixByte, hu]
  cases h with
  | none => simp
  | unsigned hu => simpa using hunsigned hu
  | long hl => exact hlong hl
  | unsignedLong hu hl => exact List.forall_mem_cons.mpr ⟨hunsigned hu, hlong hl⟩
  | longUnsigned hu hl => exact List.forall_mem_append.mpr ⟨hlong hl, by simpa using hunsigned hu⟩

lemma isSuffixByte_of_isHexDigit (h : isHexDigit b = true) : isSuffixByte b = false := by
  by_contra hb
  simp only [isSuffixByte, Bool.not_eq_false, Bool.or_eq_true] at hb
  rcases hb with hb | hb <;> rcases eq_of_either hb with rfl | rfl <;> cases h

lemma isHexDigit_of_isDigit (h : isDigit b = true) : isHexDigit b = true := by simp [isHexDigit, h]

def Whole (digits : List UInt8) : Prop := ∃ s, Shape s digits ∧ isInteger s = true ∧ s ≠ .intSuffix

lemma Whole.plain (h : Whole digits) : ∀ b ∈ digits, isSuffixByte b = false := by
  have hhex {l : List UInt8} (hl : ∀ d ∈ l, isHexDigit d = true) : ∀ d ∈ l, isSuffixByte d = false :=
    fun d hd => isSuffixByte_of_isHexDigit (hl d hd)
  obtain ⟨s, hshape, hs, hne⟩ := h
  cases hshape with
  | start => cases hs
  | zero => simp; rfl
  | decimal hb hdigits => exact hhex fun d hd => isHexDigit_of_isDigit (hdigits d hd)
  | octal hsome hdigits =>
    exact List.forall_mem_cons.mpr ⟨rfl, hhex fun d hd => isHexDigit_of_isDigit (hdigits d hd)⟩
  | hexPrefix => cases hs
  | hex hx hsome hdigits =>
    refine List.forall_mem_cons.mpr ⟨rfl, List.forall_mem_cons.mpr ⟨?_, hhex hdigits⟩⟩
    rcases eq_of_either hx with rfl | rfl <;> rfl
  | suffix => exact absurd rfl hne

lemma Digits.whole (h : Digits digits n) : Whole digits := by
  cases h with
  | zero => exact ⟨_, .zero, rfl, by simp⟩
  | decimal hb hdigits => exact ⟨_, .decimal hb (positional_decimal_iff.mp hdigits).1, rfl, by simp⟩
  | octal hsome hdigits =>
    refine ⟨_, .octal hsome fun d hd => ?_, rfl, by simp⟩
    obtain ⟨hhex, hlt⟩ := (positional_iff.mp hdigits).1 d hd
    exact isDecimalDigit_iff.mpr ⟨hhex, by omega⟩
  | hex hx hsome hdigits => exact ⟨_, .hex hx hsome (positional_hex_iff.mp hdigits).1, rfl, by simp⟩

lemma not_isDigit_of_x (h : either 'x' 'X' b = true) : isDigit b = false := by
  rcases eq_of_either h with rfl | rfl <;> rfl

lemma Whole.integerDigits (h : Whole digits) : ∃ base places,
    Numeral.integerDigits (asciiChars digits) = (base, asciiChars places) ∧
      ∀ n, Positional base places n ↔ Digits digits n := by
  obtain ⟨s, hshape, hs, hne⟩ := h
  cases hshape with
  | start => cases hs
  | zero =>
    refine ⟨10, [48], rfl, fun n => ⟨fun hplaces => ?_, fun hdigits => ?_⟩⟩
    · obtain rfl := (positional_decimal_iff.mp hplaces).2
      exact .zero
    · cases hdigits with
      | zero => exact positional_decimal_iff.mpr ⟨by simp; rfl, rfl⟩
      | decimal hb => exact absurd rfl hb
      | octal hsome => exact absurd rfl hsome
  | @decimal b digits hb hdigits =>
    refine ⟨10, b :: digits, ?_, fun n => ⟨.decimal hb, fun h => ?_⟩⟩
    · have hc : Char.ofNat b.toNat ≠ '0' := fun h => hb (ofNat_toNat_injective h)
      simp [asciiChars, Numeral.integerDigits, hc]
    · cases h with
      | decimal _ hplaces => exact hplaces
      | zero | octal | hex => exact absurd rfl hb
  | @octal digits hsome hdigits =>
    refine ⟨8, digits, ?_, fun n => ⟨.octal hsome, fun h => ?_⟩⟩
    · rcases digits with _ | ⟨d, digits⟩
      · exact absurd rfl hsome
      · have hd : isDigit d = true := hdigits d (by simp)
        have hx : Char.ofNat d.toNat ≠ 'x' := fun h => by
          obtain rfl : d = 120 := ofNat_toNat_injective h
          cases hd
        have hX : Char.ofNat d.toNat ≠ 'X' := fun h => by
          obtain rfl : d = 88 := ofNat_toNat_injective h
          cases hd
        change Numeral.integerDigits ('0' :: Char.ofNat d.toNat :: asciiChars digits) = _
        simp [Numeral.integerDigits, asciiChars]
    · cases h with
      | zero => exact absurd rfl hsome
      | decimal hb => exact absurd rfl hb
      | octal _ hplaces => exact hplaces
      | hex hx => simp [not_isDigit_of_x hx] at hdigits
  | hexPrefix => cases hs
  | @hex x digits hx hsome hdigits =>
    refine ⟨16, digits, ?_, fun n => ⟨.hex hx hsome, fun h => ?_⟩⟩
    · rcases eq_of_either hx with rfl | rfl <;> rfl
    · cases h with
      | decimal hb => exact absurd rfl hb
      | octal _ hplaces =>
        have hdigit := ((positional_iff.mp hplaces).1 x (by simp)).1
        rcases eq_of_either hx with rfl | rfl <;> cases hdigit
      | hex _ _ hplaces => exact hplaces
  | suffix => exact absurd rfl hne

lemma Shape.split (h : Shape s lexeme) (hs : isInteger s = true) : ∃ digits suffix, lexeme = digits ++ suffix ∧
    Whole digits ∧ ∀ b ∈ suffix, isSuffixByte b = true := by
  by_cases hsuffix : s = .intSuffix
  · subst hsuffix
    cases h with
    | suffix hshape hs hne _ hletters => exact ⟨_, _, rfl, ⟨_, hshape, hs, hne⟩, hletters⟩
  · exact ⟨lexeme, [], by simp, ⟨s, h, hs, hsuffix⟩, by simp⟩

lemma Whole.shape (h : Whole digits) (hsuffix : ∀ b ∈ suffix, isSuffixByte b = true) :
    ∃ s, Shape s (digits ++ suffix) ∧ isInteger s = true := by
  obtain ⟨s, hshape, hs, hne⟩ := h
  by_cases hnil : suffix = []
  · subst hnil
    exact ⟨s, by simpa using hshape, hs⟩
  · exact ⟨_, .suffix hshape hs hne hnil hsuffix, rfl⟩

lemma Whole.trim (h : Whole digits) (hsuffix : ∀ b ∈ suffix, isSuffixByte b = true) :
    ((asciiChars (digits ++ suffix)).reverse.takeWhile isSuffixLetter).reverse = asciiChars suffix := by
  have hletter : isSuffixLetter ∘ (fun b : UInt8 => Char.ofNat b.toNat) = isSuffixByte := by
    funext b
    rw [Bool.eq_iff_iff]
    simp only [Function.comp_apply, isSuffixByte, Bool.or_eq_true, either_u, either_l, isSuffixLetter, beq_iff_eq]
    tauto
  have hstop : ∀ b ∈ digits.reverse.head?, isSuffixByte b = false := by
    intro b hb
    exact h.plain b (List.mem_of_mem_head? hb |> List.mem_reverse.mp)
  rw [asciiChars, ← List.map_reverse, List.takeWhile_map, hletter, List.reverse_append,
    takeWhile_run (by simpa using hsuffix) hstop, List.map_reverse, List.reverse_reverse, asciiChars]

lemma Whole.denotes_iff (h : Whole digits) (hsuffix : ∀ b ∈ suffix, isSuffixByte b = true) :
    Denotes (digits ++ suffix) n type ↔ Digits digits n ∧ Suffix suffix type := by
  constructor
  · rintro ⟨digits', suffix', heq, hdigits, htype⟩
    obtain rfl : suffix = suffix' := by
      apply asciiChars_injective
      rw [← h.trim hsuffix, heq, hdigits.whole.trim htype.isSuffixByte]
    obtain rfl := List.append_cancel_right heq
    exact ⟨hdigits, htype⟩
  · rintro ⟨hdigits, htype⟩
    exact ⟨_, _, rfl, hdigits, htype⟩

lemma integerValue?_eq_some {v : Value} (h : Shape s lexeme) (hs : isInteger s = true) :
    integerValue? (asciiChars lexeme) = some v ↔
      ∃ n type, Denotes lexeme n type ∧ n ≤ type.max ∧ v = .int n type := by
  obtain ⟨digits, suffix, rfl, hwhole, hsuffix⟩ := h.split hs
  obtain ⟨base, places, hplaces, hnumber⟩ := hwhole.integerDigits
  have hfront : (asciiChars (digits ++ suffix)).take ((asciiChars (digits ++ suffix)).length -
      (asciiChars suffix).length) = asciiChars digits := by simp [asciiChars]
  simp only [integerValue?, hwhole.trim hsuffix, hfront, hplaces, hwhole.denotes_iff hsuffix, ← hnumber,
    ← integerType?_eq_some, ← natural?_eq_some]
  rcases integerType? (asciiChars suffix) with _ | type
  · simp
  rcases natural? base (asciiChars places) with _ | n
  · simp
  simp only [Option.bind_eq_bind, Option.bind_some, Option.some.injEq]
  constructor
  · intro h
    split at h
    · exact ⟨n, type, ⟨rfl, rfl⟩, ‹_›, (Option.some.inj h).symm⟩
    · cases h
  · rintro ⟨_, _, ⟨rfl, rfl⟩, hle, rfl⟩
    rw [if_pos hle]

end

end Ramify.C.Numeral
