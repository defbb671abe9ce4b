import Ramify.LR.Collection
import Ramify.Proofs.LR.Derivation
import Ramify.Proofs.LR.Saturation

namespace Ramify.LR

namespace Item

def Before (i j : Item) : Prop := i.rule < j.rule ∨ i.rule = j.rule ∧ i.dot < j.dot

instance : IsTrans Item Before := ⟨fun i j k hij hjk => by unfold Before at *; omega⟩

instance : Std.Irrefl Before := ⟨fun i hi => by unfold Before at hi; omega⟩

instance : Std.Antisymm Before := ⟨fun i j hij hji => by unfold Before at *; omega⟩

lemma compare_eq_lt {i j : Item} : compare i j = .lt ↔ i.Before j := by
  simp [compare, compareOfLessAndEq_eq_lt, Ordering.then_eq_lt, compareOfLessAndEq_eq_eq, Before]

lemma compare_eq_eq {i j : Item} : compare i j = .eq ↔ i = j := by
  cases i
  cases j
  simp [compare, Ordering.then_eq_eq, compareOfLessAndEq_eq_eq]

lemma compare_isLE {i j : Item} : (compare i j).isLE = true ↔ i.Before j ∨ i = j := by
  rw [← compare_eq_lt, ← compare_eq_eq]
  cases compare i j <;> simp [Ordering.isLE]

lemma before_trichotomy (i j : Item) : i.Before j ∨ i = j ∨ j.Before i := by
  cases i
  cases j
  simp only [Before, Item.mk.injEq]
  omega

lemma mergeItems_eq (l l' : List Item) :
    NumberedGrammar.mergeItems l l' = l.merge l' fun i j => (compare i j).isLE := by
  fun_induction NumberedGrammar.mergeItems l l' with
  | case1 => rw [List.nil_merge]
  | case2 => rw [List.merge_right]
  | case3 i l j l' hle ih => rw [List.cons_merge_cons, if_pos hle, ih]
  | case4 i l j l' hle ih => rw [List.cons_merge_cons, if_neg hle, ih]

lemma pairwise_merge {l l' : List Item} (h : l.Pairwise Before) (h' : l'.Pairwise Before)
    (hd : ∀ i ∈ l, i ∉ l') : (l.merge l' fun i j => (compare i j).isLE).Pairwise Before := by
  have hle : (l.merge l' fun i j => (compare i j).isLE).Pairwise
      fun i j => (compare i j).isLE = true := by
    refine List.pairwise_merge ?_ ?_ l l' ?_ ?_
    · intro i j k hij hjk
      rw [compare_isLE] at *
      rcases hij with hij | rfl
      · rcases hjk with hjk | rfl
        · exact Or.inl (IsTrans.trans _ _ _ hij hjk)
        · exact Or.inl hij
      · exact hjk
    · intro i j
      rw [Bool.or_eq_true, compare_isLE, compare_isLE]
      rcases before_trichotomy i j with hb | he | hb
      · exact Or.inl (Or.inl hb)
      · exact Or.inl (Or.inr he)
      · exact Or.inr (Or.inl hb)
    · exact h.imp fun hb => compare_isLE.mpr (Or.inl hb)
    · exact h'.imp fun hb => compare_isLE.mpr (Or.inl hb)
  have hnodup : (l.merge l' fun i j => (compare i j).isLE).Nodup := by
    refine (List.merge_perm_append _).nodup_iff.mpr (List.nodup_append.mpr ?_)
    exact ⟨h.nodup, h'.nodup, fun i hi j hj he => hd i hi (he ▸ hj)⟩
  exact (hle.and hnodup).imp fun ⟨hle, hne⟩ => (compare_isLE.mp hle).resolve_right hne

end Item

lemma mark_getD (a : Array Bool) (s t : Nat) :
    (NumberedGrammar.mark a s).getD t false = true ↔
      a.getD t false = true ∨ s = t ∧ t < a.size := by
  rw [NumberedGrammar.mark]
  split
  · rename_i hs
    refine ⟨Or.inl, fun h => h.elim id ?_⟩
    rintro ⟨rfl, hlt⟩
    simpa [Array.getD, hlt] using hs
  · rw [getD_setIfInBounds]
    split <;> grind

lemma mark_grows (n s : Nat) :
    Grows (fun a : Array Bool => a.size = n) (weight Bool.toNat) (NumberedGrammar.mark · s) := by
  unfold NumberedGrammar.mark
  refine ⟨fun a ha => by split <;> simpa using ha, fun a _ => ?_⟩
  split
  · exact Or.inl rfl
  · rename_i hs
    have hlt := lt_size_of_getD hs
    exact Or.inr (weight_set_true hlt (by simpa [Array.getD, hlt] using hs))

namespace NumberedGrammar

variable {G : NumberedGrammar}

lemma right_eq {n : Nat} {r : NumberedRule} (h : G.rules[n]? = some r) : G.right n = r.right := by
  simp [right, h]

variable (G)

inductive Closure (I : Set Item) : Item → Prop
  | base {i : Item} : i ∈ I → Closure I i
  | initial {i : Item} {n : Nat} {r : NumberedRule} : Closure I i → G.rules[n]? = some r →
      i.next? G = some r.left → Closure I ⟨n, 0⟩

variable {G}

lemma Closure.mono {I J : Set Item} (h : I ⊆ J) {i : Item} (hi : G.Closure I i) : G.Closure J i := by
  induction hi with
  | base hi => exact .base (h hi)
  | initial _ hr hn ih => exact .initial ih hr hn

lemma Closure.mem_of_dot {I : Set Item} {i : Item} (h : G.Closure I i) (hd : i.dot ≠ 0) : i ∈ I := by
  cases h with
  | base hi => exact hi
  | initial => exact absurd rfl hd

def reachStep (acc : Array Bool) (r : NumberedRule) : Array Bool :=
  match r.right with
  | s :: _ => if acc.getD r.left false then mark acc s else acc
  | [] => acc

variable (G) in
lemma reachSweep_eq : G.reachSweep = fun a => G.rules.toList.foldl reachStep a := by
  funext a
  rw [reachSweep, Array.foldl_toList]
  rfl

lemma reachStep_grows (n : Nat) (r : NumberedRule) :
    Grows (fun a : Array Bool => a.size = n) (weight Bool.toNat) (reachStep · r) := by
  unfold reachStep
  cases r.right with
  | nil => exact Grows.id
  | cons s rest =>
    have hm := mark_grows n s
    refine ⟨fun a ha => ?_, fun a ha => ?_⟩
    · dsimp only
      split
      · exact hm.keeps a ha
      · exact ha
    · dsimp only
      split
      · exact hm.grows a ha
      · exact Or.inl rfl

lemma reachSweep_grows (n : Nat) :
    Grows (fun a : Array Bool => a.size = n) (weight Bool.toNat) G.reachSweep := by
  rw [reachSweep_eq]
  exact Grows.foldl fun r _ => reachStep_grows n r

section Reached

variable (G) (kernel : List Item)

def directlyReached : Array Bool :=
  (kernel.filterMap (·.next? G)).foldl mark (Array.replicate G.nonterminals false)

lemma directlyReached_size : (G.directlyReached kernel).size = G.nonterminals := by
  have hh := Grows.foldl fun s (_ : s ∈ kernel.filterMap (·.next? G)) => mark_grows G.nonterminals s
  exact hh.keeps _ (by simp)

lemma reachedFrom_size : (G.reachedFrom kernel).size = G.nonterminals :=
  saturate_invariant (reachSweep_grows _).keeps _ (G.directlyReached_size kernel)

lemma reachedFrom_fixed : G.reachSweep (G.reachedFrom kernel) = G.reachedFrom kernel :=
  saturate_fixed (reachSweep_grows _) (fun a ha => ha ▸ weight_toNat_le a)
    (G.directlyReached_size kernel) (by omega)

variable {G kernel}

lemma directlyReached_iff {s : Nat} : (G.directlyReached kernel).getD s false = true ↔
    s < G.nonterminals ∧ ∃ i ∈ kernel, i.next? G = some s := by
  have hfold : ∀ (l : List Nat) (a : Array Bool), (l.foldl mark a).getD s false = true ↔
      a.getD s false = true ∨ s ∈ l ∧ s < a.size := by
    intro l
    induction l with
    | nil => simp
    | cons t l ih =>
      intro a
      rw [List.foldl_cons, ih, mark_getD, (mark_grows a.size t).keeps a rfl, List.mem_cons]
      grind
  rw [directlyReached, hfold]
  simp [Array.getD, and_comm]

lemma reachStep_getD (acc : Array Bool) (r : NumberedRule) (t : Nat) :
    (reachStep acc r).getD t false = true ↔ acc.getD t false = true ∨
      acc.getD r.left false = true ∧ r.right[0]? = some t ∧ t < acc.size := by
  unfold reachStep
  cases r.right with
  | nil => simp
  | cons s rest =>
    dsimp only
    split
    · rename_i hl
      rw [mark_getD]
      simp only [hl, List.getElem?_cons_zero, Option.some.injEq, true_and]
    · rename_i hl
      simp [hl]

lemma next?_initial {n : Nat} {r : NumberedRule} (h : G.rules[n]? = some r) :
    (⟨n, 0⟩ : Item).next? G = r.right[0]? := by
  rw [Item.next?, right_eq h]

lemma reachedFrom_sound {s : Nat} (h : (G.reachedFrom kernel).getD s false = true) :
    ∃ i, G.Closure {i | i ∈ kernel} i ∧ i.next? G = some s := by
  let P (a : Array Bool) : Prop := ∀ s, a.getD s false = true →
    ∃ i, G.Closure {i | i ∈ kernel} i ∧ i.next? G = some s
  have hstep : ∀ acc, P acc → ∀ r ∈ G.rules.toList, P (reachStep acc r) := by
    intro acc hacc r hr s hs
    rcases (reachStep_getD acc r s).mp hs with hs | ⟨hl, hright, _⟩
    · exact hacc s hs
    · obtain ⟨i, hi, hn⟩ := hacc _ hl
      obtain ⟨n, hn'⟩ := List.mem_iff_getElem?.mp hr
      rw [Array.getElem?_toList] at hn'
      exact ⟨⟨n, 0⟩, .initial hi hn' hn, by rw [next?_initial hn', hright]⟩
  have hall : P (G.reachedFrom kernel) := by
    refine saturate_invariant (fun a ha => ?_) _ ?_
    · rw [reachSweep_eq]
      exact foldl_invariant hstep ha
    · intro s hs
      obtain ⟨_, i, hi, hn⟩ := directlyReached_iff.mp hs
      exact ⟨i, .base hi, hn⟩
  exact hall s h

lemma directlyReached_le {s : Nat} (h : (G.directlyReached kernel).getD s false = true) :
    (G.reachedFrom kernel).getD s false = true := by
  refine saturate_invariant (P := fun a : Array Bool => a.getD s false = true) (fun a ha => ?_) _ h
  rw [reachSweep_eq]
  refine foldl_invariant (P := fun a : Array Bool => a.getD s false = true) (fun acc hacc r _ => ?_) ha
  exact (reachStep_getD acc r s).mpr (Or.inl hacc)

lemma reachedFrom_closed {r : NumberedRule} (hr : r ∈ G.rules)
    (hl : (G.reachedFrom kernel).getD r.left false = true) {s : Nat} (hs : r.right[0]? = some s)
    (hlt : s < G.nonterminals) : (G.reachedFrom kernel).getD s false = true := by
  have hf := G.reachedFrom_fixed kernel
  rw [reachSweep_eq] at hf
  have he := Grows.of_foldl_eq (fun r _ => reachStep_grows _ r) (G.reachedFrom_size kernel) hf r
    (by simpa using hr)
  rw [← he, reachStep_getD, reachedFrom_size]
  exact Or.inr ⟨hl, hs, hlt⟩

lemma reachedFrom_complete (hw : G.WellFormed) {i : Item} (h : G.Closure {i | i ∈ kernel} i) {s : Nat}
    (hn : i.next? G = some s) (hs : s < G.nonterminals) :
    (G.reachedFrom kernel).getD s false = true := by
  induction h generalizing s with
  | base hi => exact directlyReached_le (directlyReached_iff.mpr ⟨hs, _, hi, hn⟩)
  | initial _ hr hl ih =>
    have hmem := Array.mem_of_getElem? hr
    rw [next?_initial hr] at hn
    exact reachedFrom_closed hmem (ih hl (hw.left_lt _ hmem)) hn hs

lemma mem_initialItems {reached : Array Bool} {i : Item} : i ∈ G.initialItems reached ↔
    i.dot = 0 ∧ ∃ r, G.rules[i.rule]? = some r ∧ reached.getD r.left false = true := by
  simp only [initialItems, List.mem_filterMap, List.mem_range]
  constructor
  · rintro ⟨n, hn, h⟩
    split at h
    · rename_i hr
      obtain rfl := Option.some.inj h
      simpa [Option.any_eq_true] using hr
    · simp at h
  · rintro ⟨hd, r, hr, hl⟩
    have hlt := (Array.getElem?_eq_some_iff.mp hr).1
    refine ⟨i.rule, hlt, ?_⟩
    rw [if_pos (by simpa [hr] using hl)]
    cases i
    simp_all

lemma mem_closure (hw : G.WellFormed) {i : Item} :
    i ∈ G.closure kernel ↔ G.Closure {i | i ∈ kernel} i := by
  simp only [closure, Item.mergeItems_eq, List.mem_merge, List.mem_filter, mem_initialItems]
  constructor
  · rintro (hi | ⟨⟨hd, r, hr, hl⟩, _⟩)
    · exact .base hi
    · obtain ⟨j, hj, hn⟩ := reachedFrom_sound hl
      have hh := Closure.initial hj hr hn
      rwa [← hd] at hh
  · intro h
    by_cases hi : i ∈ kernel
    · exact Or.inl hi
    · cases h with
      | base hi' => exact absurd hi' hi
      | initial hj hr hn =>
        have hl := hw.left_lt _ (Array.mem_of_getElem? hr)
        exact Or.inr ⟨⟨rfl, _, hr, reachedFrom_complete hw hj hn hl⟩, by simpa using hi⟩

lemma initialItems_pairwise (reached : Array Bool) :
    (G.initialItems reached).Pairwise Item.Before := by
  rw [initialItems, List.pairwise_filterMap]
  refine List.pairwise_lt_range.imp fun hlt i hi j hj => ?_
  split at hi <;> split at hj <;> simp_all
  obtain rfl := hi
  obtain rfl := hj
  exact Or.inl hlt

lemma closure_pairwise (h : kernel.Pairwise Item.Before) : (G.closure kernel).Pairwise Item.Before := by
  rw [closure, Item.mergeItems_eq]
  refine Item.pairwise_merge h ((initialItems_pairwise _).filter _) fun i hi hi' => ?_
  simp [hi] at hi'

end Reached

end NumberedGrammar

end Ramify.LR
