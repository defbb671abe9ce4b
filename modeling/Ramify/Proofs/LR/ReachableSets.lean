import Ramify.Proofs.LR.StateGraph

namespace Ramify.LR

namespace Collection

def items (C : Collection) (s : Nat) : Set Item := {i | i ∈ C.kernel s}

end Collection

namespace NumberedGrammar

variable (G : NumberedGrammar)

def Full (S : Set Item) : Prop :=
  ∀ i ∈ S, ∀ (n : Nat) (r : NumberedRule), G.rules[n]? = some r → i.next? G = some r.left → ⟨n, 0⟩ ∈ S

def closedOver (I : Set Item) (x : Nat) : Set Item :=
  {j | ∃ i, G.Closure I i ∧ i.next? G = some x ∧ i.advance = j}

def LeadsTo (I J : Set Item) : Prop := ∃ x, J.Nonempty ∧ G.closedOver I x = J

/-- A collection that has each reachable item set once, and all transitions between them. -/
structure IsCollection (C : Collection) : Prop where
  worked : C.transitions.size = C.size
  start : C.kernels[0]? = some [⟨0, 0⟩]
  sorted : ∀ k ∈ C.kernels, k.Pairwise Item.Before
  distinct : C.kernels.toList.Nodup
  apart : Set.InjOn C.items {s | s < C.size}
  reachable : C.items '' {s | s < C.size} = {I | Relation.ReflTransGen G.LeadsTo {⟨0, 0⟩} I}
  goto?_isSome : ∀ s < C.size, ∀ x,
    (C.goto? s x).isSome = true ↔ ∃ i ∈ G.closure (C.kernel s), i.next? G = some x
  goto?_items : ∀ s < C.size, ∀ x t, C.goto? s x = some t → t < C.size ∧
    C.items t = {j | ∃ i ∈ G.closure (C.kernel s), i.next? G = some x ∧ i.advance = j}
  followed : ∀ s < C.size, ∃ g, C.follow 0 g = some s

variable {G}

section Closure

lemma Closure.subset_of_full {I S : Set Item} (hI : I ⊆ S) (hS : G.Full S) {i : Item} (h : G.Closure I i) :
    i ∈ S := by
  induction h with
  | base hi => exact hI hi
  | initial _ hr hn ih => exact hS _ ih _ _ hr hn

lemma closure_isLeast (I : Set Item) : IsLeast {S | I ⊆ S ∧ G.Full S} {i | G.Closure I i} := by
  constructor
  · exact ⟨fun _ hi => .base hi, fun _ hi _ _ hr hn => .initial hi hr hn⟩
  · rintro S ⟨hI, hS⟩ i hi
    exact hi.subset_of_full hI hS

end Closure

section Explore

lemma explore_stable {fuel n : Nat} {C : Collection}
    (h : (G.explore fuel C.transitions.size C).transitions.size = (G.explore fuel C.transitions.size C).size)
    (hn : fuel ≤ n) : G.explore n C.transitions.size C = G.explore fuel C.transitions.size C := by
  induction fuel generalizing C n with
  | zero =>
    have hnone : C.kernels[C.transitions.size]? = none := Array.getElem?_eq_none h.ge
    cases n with
    | zero => rfl
    | succ n => simp only [explore, hnone]
  | succ fuel ih =>
    obtain ⟨n, rfl⟩ := Nat.exists_eq_add_of_le' (Nat.one_le_of_lt hn)
    rw [explore] at h ⊢
    rw [explore]
    split
    · rfl
    · rename_i kernel hk
      simp only [hk] at h
      have hstep := ih (n := n) (C := ⟨(internAll C.kernels (G.successors (G.closure kernel))).1,
        C.transitions.push (internAll C.kernels (G.successors (G.closure kernel))).2⟩)
      simp only [Array.size_push] at hstep
      exact hstep h (Nat.le_of_succ_le_succ hn)

end Explore

section WellFormed

variable (hw : G.WellFormed)

include hw

lemma items_zero : G.collection.items 0 = {⟨0, 0⟩} := by
  ext i
  simp [Collection.items, (kernel_zero hw).2]

lemma items_injOn : Set.InjOn G.collection.items {s | s < G.collection.size} := by
  intro s hs t ht he
  have hmem (i : Item) : i ∈ G.collection.kernel s ↔ i ∈ G.collection.kernel t := Set.ext_iff.mp he i
  have hsorted := kernel_pairwise hw s
  have hsorted' := kernel_pairwise hw t
  have hperm : (G.collection.kernel s).Perm (G.collection.kernel t) :=
    (List.perm_ext_iff_of_nodup hsorted.nodup hsorted'.nodup).mpr hmem
  have hkernel : G.collection.kernel s = G.collection.kernel t :=
    hperm.eq_of_pairwise (fun _ _ _ _ => Std.Antisymm.antisymm _ _) hsorted hsorted'
  rw [Collection.kernel, Collection.kernel, Array.getD_eq_getD_getElem?, Array.getD_eq_getD_getElem?,
    Array.getElem?_eq_getElem hs, Array.getElem?_eq_getElem ht] at hkernel
  exact (List.Nodup.getElem_inj_iff (collection_spec hw).1.nodup).mp hkernel

lemma items_of_goto? {s x t : Nat} (h : G.collection.goto? s x = some t) :
    G.collection.items t = G.closedOver (G.collection.items s) x := by
  ext j
  change j ∈ G.collection.kernel t ↔ _
  rw [(goto?_kernel hw h).2, mem_movedOver]
  simp only [mem_closure hw]
  rfl

lemma leadsTo_of_goto? {s x t : Nat} (h : G.collection.goto? s x = some t) :
    G.LeadsTo (G.collection.items s) (G.collection.items t) := by
  obtain ⟨i, hi, hn⟩ := exists_item_of_goto? hw h
  refine ⟨x, ⟨i.advance, ?_⟩, (items_of_goto? hw h).symm⟩
  rw [items_of_goto? hw h]
  exact ⟨i, (mem_closure hw).mp hi, hn, rfl⟩

lemma exists_goto?_of_leadsTo {s : Nat} (hs : s < G.collection.size) {J : Set Item}
    (h : G.LeadsTo (G.collection.items s) J) : ∃ x t, G.collection.goto? s x = some t ∧ G.collection.items t = J := by
  obtain ⟨x, ⟨j, hj⟩, rfl⟩ := h
  obtain ⟨i, hi, hn, rfl⟩ := hj
  obtain ⟨t, ht⟩ := goto?_isSome hw hs ((mem_closure hw).mpr hi) hn
  exact ⟨x, t, ht, items_of_goto? hw ht⟩

lemma reaches_of_follow {g : List Nat} {s : Nat} (h : G.collection.follow 0 g = some s) :
    Relation.ReflTransGen G.LeadsTo {⟨0, 0⟩} (G.collection.items s) := by
  induction g using List.reverseRecOn generalizing s with
  | nil =>
    obtain rfl : 0 = s := Option.some.inj h
    rw [items_zero hw]
  | append_singleton g x ih =>
    rw [Collection.follow_concat, Option.bind_eq_some_iff] at h
    obtain ⟨s', hs', hg⟩ := h
    exact (ih hs').tail (leadsTo_of_goto? hw hg)

lemma exists_items_eq {I : Set Item} (h : Relation.ReflTransGen G.LeadsTo {⟨0, 0⟩} I) :
    ∃ s < G.collection.size, G.collection.items s = I := by
  induction h with
  | refl => exact ⟨0, (kernel_zero hw).1, items_zero hw⟩
  | tail _ hstep ih =>
    obtain ⟨s, hs, rfl⟩ := ih
    obtain ⟨x, t, ht, rfl⟩ := exists_goto?_of_leadsTo hw hs hstep
    exact ⟨t, (goto?_kernel hw ht).1, rfl⟩

lemma collection_isCollection : G.IsCollection G.collection where
  worked := (collection_spec hw).2
  start := (collection_spec hw).1.start
  sorted := (collection_spec hw).1.sorted
  distinct := (collection_spec hw).1.nodup
  apart := items_injOn hw
  reachable := by
    ext I
    constructor
    · rintro ⟨s, hs, rfl⟩
      obtain ⟨g, hg⟩ := exists_follow hw hs
      exact reaches_of_follow hw hg
    · exact exists_items_eq hw
  goto?_isSome s hs x := by
    constructor
    · intro h
      obtain ⟨t, ht⟩ := Option.isSome_iff_exists.mp h
      exact exists_item_of_goto? hw ht
    · rintro ⟨i, hi, hn⟩
      exact Option.isSome_iff_exists.mpr (goto?_isSome hw hs hi hn)
  goto?_items s hs x t ht := by
    refine ⟨(goto?_kernel hw ht).1, ?_⟩
    ext j
    change j ∈ G.collection.kernel t ↔ _
    rw [(goto?_kernel hw ht).2, mem_movedOver]
    rfl
  followed s hs := exists_follow hw hs

end WellFormed

section Widened

variable (G)

def widened : NumberedGrammar := { G with symbolCount := G.symbolCount + 1 }

lemma explore_widened (fuel state : Nat) (C : Collection) :
    G.widened.explore fuel state C = G.explore fuel state C := by
  induction fuel generalizing state C with
  | zero => rfl
  | succ fuel ih =>
    simp only [explore, ih]
    rfl

lemma collection_widened : G.widened.collection = G.collection := G.explore_widened _ _ _

variable {G}

lemma widened_wellFormed (hin : G.InRange) (hne : 0 < G.rules.size) : G.widened.WellFormed where
  rules_pos := hne
  left_lt := hin.left_lt
  right_lt r hr s hs := Nat.lt_succ_of_lt (hin.right_lt r hr s hs)
  nonterminals_lt := Nat.lt_succ_of_le hin.nonterminals_le

lemma closure_widened_iff {I : Set Item} {i : Item} : G.widened.Closure I i ↔ G.Closure I i := by
  constructor
  · intro h
    induction h with
    | base hi => exact .base hi
    | initial _ hr hn ih => exact .initial ih hr hn
  · intro h
    induction h with
    | base hi => exact .base hi
    | initial _ hr hn ih => exact .initial ih hr hn

lemma leadsTo_widened : G.widened.LeadsTo = G.LeadsTo := by
  funext I J
  simp only [LeadsTo, closedOver, closure_widened_iff]
  rfl

lemma IsCollection.of_widened {C : Collection} (h : G.widened.IsCollection C) : G.IsCollection C where
  worked := h.worked
  start := h.start
  sorted := h.sorted
  distinct := h.distinct
  apart := h.apart
  reachable := leadsTo_widened (G := G) ▸ h.reachable
  goto?_isSome := h.goto?_isSome
  goto?_items := h.goto?_items
  followed := h.followed

end Widened

/-- The exploration ends, and its states are exactly the reachable item sets. Closing is
least; no symbol is looked at but those after marks, so there may be no terminal at all. -/
theorem collection_exact (hin : G.InRange) (hne : 0 < G.rules.size) :
    (∀ n > 2 ^ G.itemCount, G.explore n 0 ⟨#[[⟨0, 0⟩]], #[]⟩ = G.collection) ∧ G.IsCollection G.collection ∧
      ∀ kernel : List Item, IsLeast {S | {i | i ∈ kernel} ⊆ S ∧ G.Full S} {i | i ∈ G.closure kernel} := by
  have hw := widened_wellFormed hin hne
  have hcollection : G.IsCollection G.collection :=
    G.collection_widened ▸ (collection_isCollection hw).of_widened
  refine ⟨fun n hn => ?_, hcollection, fun kernel => ?_⟩
  · exact explore_stable (C := ⟨#[[⟨0, 0⟩]], #[]⟩) hcollection.worked hn
  · have hclosure : {i | i ∈ G.closure kernel} = {i | G.Closure {i | i ∈ kernel} i} :=
      Set.ext fun i => (mem_closure hw).trans closure_widened_iff
    exact hclosure ▸ closure_isLeast _

theorem collection_exact_cyclic :
    let G : NumberedGrammar := ⟨#[⟨0, [1]⟩, ⟨1, [1, 2]⟩, ⟨1, [1]⟩, ⟨1, []⟩], 2, 3⟩
    G.InRange ∧ G.collection.size = 3 ∧ Relation.ReflTransGen G.LeadsTo {⟨0, 0⟩} {⟨1, 2⟩} := by
  intro G
  have hin : G.InRange := ⟨by decide, by decide, by decide⟩
  obtain ⟨_, hcollection, _⟩ := collection_exact hin (by decide)
  have hsize : G.collection.size = 3 := by decide +kernel
  have hkernel : G.collection.kernel 2 = [⟨1, 2⟩] := by decide +kernel
  refine ⟨hin, hsize, (Set.ext_iff.mp hcollection.reachable {⟨1, 2⟩}).mp ⟨2, by rw [hsize]; decide, ?_⟩⟩
  ext i
  simp [Collection.items, hkernel]

end NumberedGrammar

end Ramify.LR
