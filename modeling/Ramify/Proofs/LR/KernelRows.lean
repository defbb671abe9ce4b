import Ramify.LR.Lookahead
import Ramify.Proofs.LR.StateGraph

namespace Ramify.LR

namespace KernelLookaheads

structure Shape (C : Collection) (K : KernelLookaheads) : Prop where
  size_eq : K.size = C.size
  keys : ∀ s, (K.getD s []).map Prod.fst = C.kernel s

def raise (item : Item) (la : Nat) (p : Item × Nat) : Item × Nat :=
  if p.1 = item then (p.1, p.2 ||| la) else p

lemma add_eq (K : KernelLookaheads) (s : Site) (la : Nat) :
    K.add s la = K.modify s.state (·.map (raise s.item la)) := rfl

lemma raise_fst (item : Item) (la : Nat) (p : Item × Nat) : (raise item la p).1 = p.1 := by
  rw [raise]
  split <;> rfl

lemma getD_add (K : KernelLookaheads) (s : Site) (la t : Nat) : (K.add s la).getD t [] =
    if s.state = t then (K.getD t []).map (raise s.item la) else K.getD t [] := by
  rw [add_eq]
  simp only [Array.getD_eq_getD_getElem?, Array.getElem?_modify]
  split
  · cases K[t]? <;> rfl
  · rfl

lemma Shape.add {C : Collection} {K : KernelLookaheads} (h : Shape C K) (s : Site) (la : Nat) :
    Shape C (K.add s la) := by
  refine ⟨by rw [add_eq, Array.size_modify, h.size_eq], fun t => ?_⟩
  rw [getD_add, ← h.keys t]
  split
  · rw [List.map_map]
    exact List.map_congr_left fun p _ => raise_fst s.item la p
  · rfl

lemma lookup_map_raise (item : Item) (la : Nat) (row : Lookaheads) (j : Item) :
    (row.map (raise item la)).lookup j =
      (row.lookup j).map fun old => if j = item then old ||| la else old := by
  induction row with
  | nil => rfl
  | cons p row ih =>
    rw [List.map_cons, lookup_cons_if, raise_fst, ih, lookup_cons_if]
    split
    · rename_i hj
      subst hj
      rw [raise]
      split <;> rfl
    · rfl

lemma get_add (K : KernelLookaheads) (s : Site) (la : Nat) (t : Site) : (K.add s la).get t =
    if t = s ∧ ((K.getD t.state []).lookup t.item).isSome then K.get t ||| la else K.get t := by
  obtain ⟨t, j⟩ := t
  obtain ⟨s, i⟩ := s
  rw [get, get, getD_add]
  by_cases hs : s = t
  · subst hs
    rw [if_pos rfl, lookup_map_raise]
    cases (K.getD s []).lookup j <;> by_cases hj : j = i <;> simp [hj]
  · rw [if_neg hs, if_neg (by simp [Ne.symm hs])]

variable {C : Collection} {K : KernelLookaheads}

lemma Shape.isSome_lookup (h : Shape C K) {s : Site} :
    ((K.getD s.state []).lookup s.item).isSome = true ↔ s.item ∈ C.kernel s.state := by
  rw [List.lookup_isSome_iff, ← h.keys]
  simp

lemma Shape.testBit_add (h : Shape C K) {s t : Site} {la a : Nat} :
    ((K.add s la).get t).testBit a = true ↔ (K.get t).testBit a = true ∨
      t = s ∧ t.item ∈ C.kernel t.state ∧ la.testBit a = true := by
  rw [get_add, ← h.isSome_lookup]
  split
  · rename_i ht
    rw [Nat.testBit_or, Bool.or_eq_true, and_iff_right ht.1, and_iff_right ht.2]
  · tauto

lemma Shape.add_eq_self (h : Shape C K) {s : Site} (hs : s.item ∉ C.kernel s.state) (la : Nat) :
    K.add s la = K := by
  apply Array.ext_getElem?
  intro t
  rw [add_eq, Array.getElem?_modify]
  split
  · rename_i ht
    subst ht
    cases hrow : K[s.state]? with
    | none => rfl
    | some row =>
      have hkeys : row.map Prod.fst = C.kernel s.state := by
        rw [← h.keys, Array.getD_eq_getD_getElem?, hrow, Option.getD_some]
      have hsame : row.map (raise s.item la) = row := by
        refine (List.map_congr_left fun p hp => ?_).trans (List.map_id row)
        have hne : p.1 ≠ s.item := fun he => hs (hkeys ▸ he ▸ List.mem_map_of_mem hp)
        rw [raise, if_neg hne]
        rfl
      rw [Option.map_some, hsame]
  · rfl

def Bounded (width : Nat) (K : KernelLookaheads) : Prop := ∀ s, ∀ p ∈ K.getD s [], p.2 < 2 ^ width

variable {width : Nat}

lemma Bounded.get (h : Bounded width K) (s : Site) : K.get s < 2 ^ width := by
  rw [KernelLookaheads.get]
  cases hl : (K.getD s.state []).lookup s.item with
  | none => exact Nat.two_pow_pos _
  | some la =>
    obtain ⟨l₁, l₂, hrow, _⟩ := List.lookup_eq_some_iff.mp hl
    exact h s.state (s.item, la) (by simp [hrow])

lemma Bounded.add (h : Bounded width K) (s : Site) {la : Nat} (hla : la < 2 ^ width) :
    Bounded width (K.add s la) := by
  intro t p hp
  rw [getD_add] at hp
  split at hp
  · obtain ⟨q, hq, rfl⟩ := List.mem_map.mp hp
    rw [raise]
    split
    · exact Nat.or_lt_two_pow (h t q hq) hla
    · exact h t q hq
  · exact h t p hp

def rowWeight (width : Nat) (row : Lookaheads) : Nat := (row.map fun p => bitCount width p.2).sum

lemma rowWeight_cons (width : Nat) (p : Item × Nat) (row : Lookaheads) :
    rowWeight width (p :: row) = bitCount width p.2 + rowWeight width row := by
  simp [rowWeight]

lemma rowWeight_le (width : Nat) (row : Lookaheads) : rowWeight width row ≤ row.length * width := by
  induction row with
  | nil => simp [rowWeight]
  | cons p row ih =>
    have hp := bitCount_le width p.2
    rw [rowWeight_cons, List.length_cons, Nat.succ_mul]
    omega

lemma rowWeight_raise_le (width : Nat) (item : Item) (la : Nat) (row : Lookaheads) :
    rowWeight width row ≤ rowWeight width (row.map (raise item la)) := by
  rw [rowWeight, rowWeight, List.map_map]
  refine List.sum_le_sum fun p _ => ?_
  rw [Function.comp_apply, raise]
  split
  · exact bitCount_le_or width p.2 la
  · exact le_rfl

lemma rowWeight_raise_lt {item : Item} {la old : Nat} {row : Lookaheads} (hl : row.lookup item = some old)
    (hrow : ∀ p ∈ row, p.2 < 2 ^ width) (hla : la < 2 ^ width) (hne : old ||| la ≠ old) :
    rowWeight width row < rowWeight width (row.map (raise item la)) := by
  induction row with
  | nil => simp at hl
  | cons p row ih =>
    rw [lookup_cons_if] at hl
    rw [List.map_cons, rowWeight_cons, rowWeight_cons]
    split at hl
    · rename_i hp
      obtain rfl := Option.some.inj hl
      have hlt := bitCount_lt_or (hrow p (by simp)) hla hne
      have hle := rowWeight_raise_le width item la row
      rw [raise, if_pos hp.symm]
      dsimp only
      omega
    · rename_i hp
      rw [raise, if_neg (Ne.symm hp)]
      have hlt := ih hl fun q hq => hrow q (by simp [hq])
      omega

def addNew (K : KernelLookaheads) (t : Site) (la : Nat) : KernelLookaheads :=
  if K.get t ||| la = K.get t then K else K.add t la

lemma addNew_grows (C : Collection) (t : Site) {la : Nat} (hla : la < 2 ^ width) :
    Grows (fun K => Shape C K ∧ Bounded width K) (weight (rowWeight width)) (addNew · t la) := by
  refine ⟨fun K hK => ?_, fun K hK => ?_⟩
  · unfold addNew
    split
    · exact hK
    · exact ⟨hK.1.add t la, hK.2.add t hla⟩
  · unfold addNew
    split
    · exact Or.inl rfl
    · rename_i hne
      by_cases ht : t.item ∈ C.kernel t.state
      · right
        obtain ⟨old, hold⟩ := Option.isSome_iff_exists.mp (hK.1.isSome_lookup.mpr ht)
        have hlt : t.state < K.size := by
          by_contra hge
          simp [Array.getElem?_eq_none (not_lt.mp hge)] at hold
        rw [add_eq]
        apply weight_lt_of_modify hlt
        rw [getElem_eq_getD hlt []]
        refine rowWeight_raise_lt hold (hK.2 t.state) hla ?_
        rwa [get, hold, Option.getD_some] at hne
      · exact Or.inl (hK.1.add_eq_self ht la)

end KernelLookaheads

end Ramify.LR
