import Ramify.Proofs.Text.Cursors

namespace Ramify

namespace Cursor

variable (c : Cursor)

lemma advance_eq_skip : c.advance = c.skip 1 := by
  cases hrest : c.rest <;> simp [skip, atEnd, advance, hrest]

lemma offset_skip (n : Nat) : (c.skip n).offset = c.offset + min n c.rest.length := by
  induction n generalizing c with
  | zero => simp [skip]
  | succ n ih =>
    cases hrest : c.rest with
    | nil => simp [skip, atEnd, hrest]
    | cons b rest =>
      simp [skip, atEnd, hrest, ih, advance]
      omega

lemma sliceTo_skip (n : Nat) : c.sliceTo (c.skip n) = c.rest.take n := by
  rw [sliceTo, offset_skip, Nat.add_sub_cancel_left]
  rcases Nat.le_total n c.rest.length with h | h
  · rw [Nat.min_eq_left h]
  · rw [Nat.min_eq_right h, List.take_of_length_le h, List.take_of_length_le (le_refl _)]

end Cursor

namespace Automaton

variable {σ κ : Type} (A : Automaton σ κ)

def outcome (bytes : List UInt8) : Except FaultKind σ × Nat :=
  let w := A.walk A.start bytes
  if w.forbidden then (.error .invalidCharacter, w.edges.length + 1)
  else if A.accepts (w.last A.start) then (.ok (w.last A.start), w.edges.length)
  else
    match if A.backtracks then A.lastAccepting? A.start w.edges else none with
    | some (s, n) => (.ok s, n)
    | none => (.error .unidentifiedToken, w.edges.length)

lemma run_eq (c : Cursor) : A.run c =
    ((A.outcome c.rest).1.mapError fun kind => ⟨kind, c.spanTo (c.skip (A.outcome c.rest).2), A.name⟩,
      c.skip (A.outcome c.rest).2) := by
  rw [run, outcome]
  dsimp only
  split
  · rw [Cursor.advance_eq_skip, Cursor.skip_skip]
    rfl
  · split
    · rfl
    · generalize (if A.backtracks then A.lastAccepting? A.start (A.walk A.start c.rest).edges else none) = back
      rcases back with _ | ⟨s, n⟩ <;> rfl

variable {A}

lemma outcome_ok {bytes : List UInt8} {s : σ} {n : Nat} (h : A.outcome bytes = (.ok s, n)) :
    n ≤ (A.walk A.start bytes).edges.length := by
  rw [outcome] at h
  split at h
  · cases h
  · split at h
    · cases h
      exact le_refl _
    · split at h
      · rename_i hlast
        cases h
        split at hlast
        · exact (lastAccepting?_le hlast).1
        · cases hlast
      · cases h

def Reads (A : Automaton σ κ) (b : UInt8) : Prop := ∃ s t, A.next s b = .goto t

lemma walk_reads (s : σ) (bytes : List UInt8) {b : UInt8} (hb : b ∈ bytes.take (A.walk s bytes).edges.length) :
    A.Reads b := by
  induction bytes generalizing s with
  | nil => simp at hb
  | cons a bytes ih =>
    rw [walk] at hb
    cases hnext : A.next s a with
    | forbidden => simp [hnext] at hb
    | stuck => simp [hnext] at hb
    | goto t =>
      simp only [hnext, List.length_cons, List.take_succ_cons, List.mem_cons] at hb
      rcases hb with rfl | hb
      · exact ⟨s, t, hnext⟩
      · exact ih t hb

lemma outcome_reads {bytes : List UInt8} {s : σ} {n : Nat} (h : A.outcome bytes = (.ok s, n)) :
    ∀ b ∈ bytes.take n, A.Reads b := fun _ hb =>
  walk_reads A.start bytes ((List.take_sublist_take_left (outcome_ok h)).subset hb)

inductive Path (A : Automaton σ κ) : σ → List UInt8 → σ → Prop
  | nil {s : σ} : Path A s [] s
  | cons {s t u : σ} {b : UInt8} {bytes : List UInt8} : A.next s b = .goto t → Path A t bytes u → Path A s (b :: bytes) u

lemma Path.append {s t u : σ} {bytes rest : List UInt8} (h : A.Path s bytes t) (h' : A.Path t rest u) :
    A.Path s (bytes ++ rest) u := by
  induction h with
  | nil => exact h'
  | cons hnext _ ih => exact .cons hnext (ih h')

lemma Path.walk {s t : σ} {bytes : List UInt8} (h : A.Path s bytes t) :
    (A.walk s bytes).forbidden = false ∧ (A.walk s bytes).edges.length = bytes.length ∧ (A.walk s bytes).last s = t := by
  induction h with
  | nil => exact ⟨rfl, rfl, rfl⟩
  | @cons s t u b bytes hnext _ ih =>
    obtain ⟨hquiet, hlength, hlast⟩ := ih
    simp only [Automaton.walk, hnext, List.length_cons, hlength, hquiet, true_and]
    rw [← hlast, Walk.last, Walk.last, List.getLast?_cons]
    cases (A.walk t bytes).edges.getLast? <;> rfl

lemma Path.outcome {t : σ} {bytes : List UInt8} (h : A.Path A.start bytes t) (ht : A.accepts t = true) :
    A.outcome bytes = (.ok t, bytes.length) := by
  obtain ⟨hquiet, hlength, hlast⟩ := h.walk
  simp [Automaton.outcome, hquiet, hlength, hlast, ht]

lemma next_eq_stuck {b : UInt8} (h : ∀ condition ∈ A.conditions, condition.2 b = false) (s : σ) :
    A.next s b = .stuck := by
  rw [next, List.findSome?_eq_none_iff.mpr]
  · rfl
  · intro condition hmem
    simp [h condition hmem]

lemma Reads.condition {b : UInt8} (h : A.Reads b) : ∃ condition ∈ A.conditions, condition.2 b = true := by
  obtain ⟨s, t, hnext⟩ := h
  by_contra hnone
  simp only [not_exists, not_and, Bool.not_eq_true] at hnone
  rw [next_eq_stuck hnone] at hnext
  cases hnext

structure StopsAtNewline (A : Automaton σ κ) : Prop where
  stops : ¬ A.Reads 10
  quiet : ∀ s, A.backtracks = true ∨ A.accepts s = true → A.next s 10 ≠ .forbidden

lemma StopsAtNewline.of_conditions (h : ∀ condition ∈ A.conditions, condition.2 10 = false) : A.StopsAtNewline where
  stops := by
    rintro ⟨s, t, hnext⟩
    rw [next_eq_stuck h] at hnext
    cases hnext
  quiet s _ hnext := by
    rw [next_eq_stuck h] at hnext
    cases hnext

lemma StopsAtNewline.walk_append (h : A.StopsAtNewline) (s : σ) (bytes rest : List UInt8) :
    (A.walk s (bytes ++ 10 :: rest)).edges = (A.walk s bytes).edges ∧
      ((A.walk s (bytes ++ 10 :: rest)).forbidden = true → (A.walk s bytes).forbidden = true ∨
        A.next ((A.walk s bytes).last s) 10 = .forbidden) := by
  induction bytes generalizing s with
  | nil =>
    rw [List.nil_append, walk, walk]
    cases hnext : A.next s 10 with
    | goto t => exact absurd ⟨s, t, hnext⟩ h.stops
    | forbidden => exact ⟨rfl, fun _ => Or.inr hnext⟩
    | stuck => exact ⟨rfl, fun hf => by cases hf⟩
  | cons a bytes ih =>
    rw [List.cons_append, walk, walk]
    cases hnext : A.next s a with
    | forbidden => exact ⟨rfl, Or.inl⟩
    | stuck => exact ⟨rfl, fun hf => by cases hf⟩
    | goto t =>
      obtain ⟨hedges, hforbidden⟩ := ih t
      refine ⟨congrArg (List.cons (a, t)) hedges, fun hf => (hforbidden hf).imp_right fun hlast => ?_⟩
      rw [← hlast]
      congr 1
      simp only [Walk.last, List.getLast?_cons]
      cases (A.walk t bytes).edges.getLast? <;> rfl

theorem StopsAtNewline.outcome_append (h : A.StopsAtNewline) {bytes : List UInt8} {s : σ} {n : Nat}
    (hs : A.outcome bytes = (.ok s, n)) (rest : List UInt8) : A.outcome (bytes ++ 10 :: rest) = (.ok s, n) := by
  obtain ⟨hedges, hforbidden⟩ := h.walk_append A.start bytes rest
  have hlast : (A.walk A.start (bytes ++ 10 :: rest)).last A.start = (A.walk A.start bytes).last A.start := by
    rw [Walk.last, Walk.last, hedges]
  rw [outcome] at hs ⊢
  split at hs
  · cases hs
  · rename_i hquiet
    have hstill : ∀ s', (A.walk A.start bytes).last A.start = s' → A.backtracks = true ∨ A.accepts s' = true →
        ¬ (A.walk A.start (bytes ++ 10 :: rest)).forbidden = true := by
      rintro _ rfl hmay hf
      exact (hforbidden hf).elim hquiet (h.quiet _ hmay)
    rw [hlast, hedges]
    split at hs
    · rename_i haccepts
      rwa [if_neg (hstill _ rfl (Or.inr haccepts)), if_pos haccepts]
    · rename_i hrefuses
      by_cases hback : A.backtracks = true
      · rwa [if_neg (hstill _ rfl (Or.inl hback)), if_neg hrefuses]
      · simp [hback] at hs

end Automaton

end Ramify
