import Ramify.Automaton
import Mathlib

namespace Ramify

namespace Position

variable {p q : Position}

lemma lt_iff : p < q ↔ p.line < q.line ∨ p.line = q.line ∧ p.column < q.column := by
  change (compare p.line q.line).then (compare p.column q.column) = .lt ↔ _
  rw [Ordering.then_eq_lt, Nat.compare_eq_lt, Nat.compare_eq_eq, Nat.compare_eq_lt]

lemma le_iff : p ≤ q ↔ p.line < q.line ∨ p.line = q.line ∧ p.column ≤ q.column := by
  change ((compare p.line q.line).then (compare p.column q.column)).isLE = true ↔ _
  rw [Ordering.isLE_iff_eq_lt_or_eq_eq, Ordering.then_eq_lt, Ordering.then_eq_eq, Nat.compare_eq_lt,
    Nat.compare_eq_eq, Nat.compare_eq_lt, Nat.compare_eq_eq]
  omega

instance : PartialOrder Position where
  le p q := p ≤ q
  lt p q := p < q
  le_refl p := le_iff.mpr (Or.inr ⟨rfl, le_rfl⟩)
  le_trans p q r h h' := by
    rw [le_iff] at h h' ⊢
    omega
  lt_iff_le_not_ge p q := by
    rw [lt_iff, le_iff, le_iff]
    omega
  le_antisymm p q h h' := by
    rw [le_iff] at h h'
    have hline : p.line = q.line := by omega
    have hcolumn : p.column = q.column := by omega
    cases p
    cases q
    cases hline
    cases hcolumn
    rfl

lemma lt_after (p : Position) (b : UInt8) : p < p.after b := by
  rw [after]
  split
  · exact lt_iff.mpr (Or.inl (Nat.lt_succ_self _))
  · exact lt_iff.mpr (Or.inr ⟨rfl, Nat.lt_succ_self _⟩)

lemma le_foldl_after (p : Position) (bytes : List UInt8) : p ≤ bytes.foldl after p := by
  induction bytes generalizing p with
  | nil => exact le_refl p
  | cons b bytes ih => exact (p.lt_after b).le.trans (ih _)

lemma lt_foldl_after (p : Position) {bytes : List UInt8} (h : bytes ≠ []) : p < bytes.foldl after p := by
  obtain ⟨b, rest, rfl⟩ := List.exists_cons_of_ne_nil h
  exact (p.lt_after b).trans_le (le_foldl_after _ rest)

end Position

lemma Span.merge_of_le {s t : Span} (hstart : s.start ≤ t.start) (hstop : s.stop ≤ t.stop) :
    s.merge t = ⟨s.start, t.stop⟩ := by
  rw [merge, if_pos hstart]
  split
  · rename_i hle
    rw [le_antisymm hstop hle]
  · rfl

namespace Cursor

variable (c : Cursor)

lemma position_skip (n : Nat) : (c.skip n).position = (c.rest.take n).foldl Position.after c.position := by
  induction n generalizing c with
  | zero => rfl
  | succ n ih =>
    cases h : c.rest with
    | nil => simp [skip, atEnd, h]
    | cons b rest => simp [skip, atEnd, h, ih, advance]

lemma skip_skip (m n : Nat) : (c.skip m).skip n = c.skip (m + n) := by
  induction m generalizing c with
  | zero => rw [skip, Nat.zero_add]
  | succ m ih =>
    rw [Nat.add_right_comm, skip, skip]
    split
    · rename_i h
      cases n with
      | zero => rfl
      | succ n => rw [skip, if_pos h]
    · exact ih _

lemma position_le_skip (n : Nat) : c.position ≤ (c.skip n).position := by
  rw [position_skip]
  exact Position.le_foldl_after _ _

lemma position_lt_skip {n : Nat} (hn : 0 < n) (hle : n ≤ c.rest.length) : c.position < (c.skip n).position := by
  rw [position_skip]
  refine Position.lt_foldl_after _ (List.ne_nil_of_length_pos ?_)
  rwa [List.length_take_of_le hle]

end Cursor

namespace Automaton

variable {σ κ : Type} {A : Automaton σ κ}

lemma walk_length_le (s : σ) (bytes : List UInt8) : (A.walk s bytes).edges.length ≤ bytes.length := by
  induction bytes generalizing s with
  | nil => exact le_refl _
  | cons b rest ih =>
    rw [walk]
    split
    · exact Nat.succ_le_succ (ih _)
    · exact Nat.zero_le _
    · exact Nat.zero_le _

lemma lastAccepting?_le {s t : σ} {edges : List (UInt8 × σ)} {n : Nat}
    (h : A.lastAccepting? s edges = some (t, n)) : n ≤ edges.length ∧ (A.accepts s = false → 0 < n) := by
  induction edges generalizing s n with
  | nil =>
    rw [lastAccepting?] at h
    split at h
    · rename_i ha
      cases h
      exact ⟨le_refl _, fun hf => by simp [ha] at hf⟩
    · cases h
  | cons edge edges ih =>
    rw [lastAccepting?] at h
    split at h
    · rename_i hrest
      cases h
      exact ⟨Nat.succ_le_succ (ih hrest).1, fun _ => Nat.succ_pos _⟩
    · split at h
      · rename_i ha
        cases h
        exact ⟨Nat.zero_le _, fun hf => by simp [ha] at hf⟩
      · cases h

lemma run_ok {c stop : Cursor} {s : σ} (hstart : A.accepts A.start = false) (h : A.run c = (.ok s, stop)) :
    ∃ n, 0 < n ∧ n ≤ c.rest.length ∧ stop = c.skip n := by
  have hle := A.walk_length_le A.start c.rest
  rw [run] at h
  dsimp only at h
  split at h
  · cases h
  · split at h
    · rename_i ha
      cases h
      refine ⟨_, ?_, hle, rfl⟩
      by_contra hzero
      have hnil := List.eq_nil_of_length_eq_zero (Nat.eq_zero_of_not_pos hzero)
      rw [Walk.last, hnil] at ha
      simp [hstart] at ha
    · split at h
      · rename_i n hlast
        cases h
        split at hlast
        · obtain ⟨hn, hpos⟩ := lastAccepting?_le hlast
          exact ⟨n, hpos hstart, hn.trans hle, rfl⟩
        · cases hlast
      · cases h

end Automaton

end Ramify
