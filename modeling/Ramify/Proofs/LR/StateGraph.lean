import Ramify.Proofs.LR.ItemClosure

namespace Ramify.LR

section Lookup

variable {β : Type} {l : List (Nat × β)}

lemma lookup_cons_if {α : Type} [DecidableEq α] (p : α × β) (l : List (α × β)) (t : α) :
    (p :: l).lookup t = if t = p.1 then some p.2 else l.lookup t := by
  obtain ⟨k, b⟩ := p
  rw [List.lookup_cons]
  rcases eq_or_ne t k with rfl | ht
  · simp
  · simp [ht, beq_eq_false_iff_ne.mpr ht]

lemma lookup_eq_none_of_lt {s : Nat} (h : ∀ p ∈ l, s < p.1) : l.lookup s = none := by
  rw [List.lookup_eq_none_iff]
  intro p hp
  have hh := h p hp
  simp
  omega

lemma nodup_keys (h : l.Pairwise (·.1 < ·.1)) : (l.map Prod.fst).Nodup :=
  List.pairwise_map.mpr (h.imp Nat.ne_of_lt)

lemma lookup_eq_some_iff_mem {α : Type} [DecidableEq α] {l : List (α × β)} (h : (l.map Prod.fst).Nodup)
    {s : α} {b : β} : l.lookup s = some b ↔ (s, b) ∈ l := by
  induction l with
  | nil => simp
  | cons p l ih =>
    obtain ⟨hp, hl⟩ := List.nodup_cons.mp h
    rw [lookup_cons_if, List.mem_cons, ← ih hl]
    rcases eq_or_ne s p.1 with rfl | hs
    · have hnot : (p.1, b) ∉ l := fun hmem => hp (List.mem_map.mpr ⟨_, hmem, rfl⟩)
      simp [ih hl, hnot, Prod.ext_iff, eq_comm]
    · simp [hs, Prod.ext_iff]

end Lookup

namespace Item

structure Valid (G : NumberedGrammar) (i : Item) : Prop where
  rule_lt : i.rule < G.rules.size
  dot_le : i.dot ≤ (G.right i.rule).length

end Item

namespace NumberedGrammar

variable {G : NumberedGrammar}

lemma Closure.valid {I : Set Item} (h : ∀ i ∈ I, i.Valid G) {i : Item} (hi : G.Closure I i) :
    i.Valid G := by
  cases hi with
  | base hi => exact h _ hi
  | initial _ hr _ => exact ⟨(Array.getElem?_eq_some_iff.mp hr).1, Nat.zero_le _⟩

lemma advance_valid {i : Item} (hi : i.Valid G) {s : Nat} (hn : i.next? G = some s) :
    i.advance.Valid G :=
  ⟨hi.rule_lt, (List.getElem?_eq_some_iff.mp hn).1⟩

section Successors

lemma insertUnder_keys {s : Nat} {i : Item} {l : List (Nat × List Item)} {p : Nat × List Item}
    (hp : p ∈ insertUnder s i l) : p.1 = s ∨ ∃ q ∈ l, q.1 = p.1 := by
  induction l with
  | nil => simp_all [insertUnder]
  | cons q l ih =>
    rw [insertUnder] at hp
    grind

lemma insertUnder_pairwise {s : Nat} {i : Item} {l : List (Nat × List Item)}
    (h : l.Pairwise (·.1 < ·.1)) : (insertUnder s i l).Pairwise (·.1 < ·.1) := by
  induction l with
  | nil => simp [insertUnder]
  | cons q l ih =>
    obtain ⟨hq, hl⟩ := List.pairwise_cons.mp h
    rw [insertUnder]
    split
    · rename_i hlt
      refine List.pairwise_cons.mpr ⟨?_, h⟩
      intro p hp
      rcases List.mem_cons.mp hp with rfl | hp
      · exact hlt
      · exact hlt.trans (hq p hp)
    · split
      · exact List.pairwise_cons.mpr ⟨hq, hl⟩
      · refine List.pairwise_cons.mpr ⟨fun p hp => ?_, ih hl⟩
        rcases insertUnder_keys hp with he | ⟨p', hp', he⟩
        · dsimp only at *
          omega
        · exact he ▸ hq p' hp'

lemma lookup_insertUnder {s : Nat} {i : Item} {l : List (Nat × List Item)}
    (h : l.Pairwise (·.1 < ·.1)) (t : Nat) :
    (insertUnder s i l).lookup t =
      if t = s then some (i :: (l.lookup s).getD []) else l.lookup t := by
  induction l with
  | nil => simp [insertUnder, lookup_cons_if]
  | cons q l ih =>
    obtain ⟨hq, hl⟩ := List.pairwise_cons.mp h
    rw [insertUnder]
    split
    · rename_i hlt
      have hnone : (q :: l).lookup s = none := lookup_eq_none_of_lt fun p hp => by
        rcases List.mem_cons.mp hp with rfl | hp
        · exact hlt
        · exact hlt.trans (hq p hp)
      rw [lookup_cons_if, hnone]
      rfl
    · split
      · rename_i hs
        subst hs
        simp only [lookup_cons_if]
        split <;> rfl
      · rename_i hs
        simp only [lookup_cons_if, ih hl, hs]
        grind

def movedOver (G : NumberedGrammar) (closed : List Item) (s : Nat) : List Item :=
  (closed.filter fun i => i.next? G = some s).map Item.advance

lemma mem_movedOver {closed : List Item} {s : Nat} {j : Item} :
    j ∈ G.movedOver closed s ↔ ∃ i ∈ closed, i.next? G = some s ∧ i.advance = j := by
  simp [movedOver, and_assoc]

lemma movedOver_pairwise {closed : List Item} (h : closed.Pairwise Item.Before) (s : Nat) :
    (G.movedOver closed s).Pairwise Item.Before := by
  rw [movedOver, List.pairwise_map]
  refine (h.filter _).imp fun hb => ?_
  simp only [Item.Before, Item.advance] at hb ⊢
  omega

lemma movedOver_cons (i : Item) (closed : List Item) (t : Nat) : G.movedOver (i :: closed) t =
    if i.next? G = some t then i.advance :: G.movedOver closed t else G.movedOver closed t := by
  by_cases hi : i.next? G = some t <;> simp [movedOver, hi]

lemma successors_cons (i : Item) (closed : List Item) : G.successors (i :: closed) =
    match i.next? G with
    | some s => insertUnder s i.advance (G.successors closed)
    | none => G.successors closed := rfl

variable (G) in
lemma successors_pairwise (closed : List Item) : (G.successors closed).Pairwise (·.1 < ·.1) := by
  induction closed with
  | nil => simp [successors]
  | cons i closed ih =>
    rw [successors_cons]
    split
    · exact insertUnder_pairwise ih
    · exact ih

lemma lookup_successors (closed : List Item) (t : Nat) :
    (G.successors closed).lookup t =
      if G.movedOver closed t = [] then none else some (G.movedOver closed t) := by
  induction closed generalizing t with
  | nil => simp [successors, movedOver]
  | cons i closed ih =>
    rw [successors_cons, movedOver_cons]
    cases hs : i.next? G with
    | none => simpa using ih t
    | some s =>
      dsimp only
      rw [lookup_insertUnder (G.successors_pairwise closed), ih s, ih t]
      rcases eq_or_ne t s with rfl | ht
      · by_cases hm : G.movedOver closed t = [] <;> simp [hm]
      · simp [ht, Ne.symm ht]

lemma mem_successors {closed : List Item} {t : Nat} {kernel : List Item} :
    (t, kernel) ∈ G.successors closed ↔ kernel ≠ [] ∧ kernel = G.movedOver closed t := by
  rw [← lookup_eq_some_iff_mem (nodup_keys (G.successors_pairwise closed)), lookup_successors]
  split
  · rename_i hm
    simp [hm]
  · rename_i hm
    simp only [Option.some.injEq]
    exact ⟨fun h => ⟨h ▸ hm, h.symm⟩, fun h => h.2.symm⟩

end Successors

section Intern

def Extends (kernels kernels' : Array (List Item)) : Prop :=
  ∀ (n : Nat) k, kernels[n]? = some k → kernels'[n]? = some k

lemma Extends.refl (kernels : Array (List Item)) : Extends kernels kernels := fun _ _ h => h

lemma Extends.trans {a b c : Array (List Item)} (h : Extends a b) (h' : Extends b c) : Extends a c :=
  fun n k hk => h' n k (h n k hk)

lemma Extends.size_le {a b : Array (List Item)} (h : Extends a b) : a.size ≤ b.size := by
  by_contra hlt
  have hb : b.size < a.size := by omega
  have hh := h b.size a[b.size] (by simp [hb])
  simp at hh

lemma Extends.push (kernels : Array (List Item)) (kernel : List Item) :
    Extends kernels (kernels.push kernel) := by
  intro n k hk
  have hlt := (Array.getElem?_eq_some_iff.mp hk).1
  rw [Array.getElem?_push, if_neg (by omega), hk]

lemma intern_spec (kernels : Array (List Item)) (kernel : List Item) :
    Extends kernels (intern kernels kernel).1 ∧
    (intern kernels kernel).1[(intern kernels kernel).2]? = some kernel ∧
    (kernels.toList.Nodup → (intern kernels kernel).1.toList.Nodup) ∧
    (∀ k ∈ (intern kernels kernel).1, k ∈ kernels ∨ k = kernel) ∧
    ∀ n < (intern kernels kernel).1.size, n < kernels.size ∨ n = (intern kernels kernel).2 := by
  rw [intern]
  split
  · rename_i t ht
    obtain ⟨hlt, ht', _⟩ := Array.findIdx?_eq_some_iff_getElem.mp ht
    refine ⟨Extends.refl _, ?_, id, fun k hk => Or.inl hk, fun n hn => Or.inl hn⟩
    simpa [hlt] using ht'
  · rename_i hnone
    rw [Array.findIdx?_eq_none_iff] at hnone
    refine ⟨Extends.push _ _, by simp, fun hd => ?_, fun k hk => by simpa using hk, fun n hn => ?_⟩
    · rw [Array.toList_push, List.nodup_append]
      refine ⟨hd, by simp, fun k hk k' hk' he => ?_⟩
      have hh := hnone k (by simpa using hk)
      rw [List.mem_singleton] at hk'
      simp [he, hk'] at hh
    · rw [Array.size_push] at hn
      omega

def RowOf (kernels : Array (List Item)) : List (Nat × List Item) → List (Nat × Nat) → Prop :=
  List.Forall₂ fun p q => p.1 = q.1 ∧ kernels[q.2]? = some p.2

lemma RowOf.extend {kernels kernels' : Array (List Item)} (h : Extends kernels kernels')
    {succ : List (Nat × List Item)} {row : List (Nat × Nat)} (hr : RowOf kernels succ row) :
    RowOf kernels' succ row :=
  hr.imp fun _ _ hp => ⟨hp.1, h _ _ hp.2⟩

lemma RowOf.lookup {kernels : Array (List Item)} {succ : List (Nat × List Item)}
    {row : List (Nat × Nat)} (h : RowOf kernels succ row) (s : Nat) :
    row.lookup s = none ∧ succ.lookup s = none ∨
      ∃ t k, row.lookup s = some t ∧ succ.lookup s = some k ∧ kernels[t]? = some k := by
  induction h with
  | nil => exact Or.inl ⟨rfl, rfl⟩
  | cons hp _ ih =>
    simp only [lookup_cons_if, ← hp.1]
    split
    · exact Or.inr ⟨_, _, rfl, rfl, hp.2⟩
    · exact ih

lemma RowOf.keys {kernels : Array (List Item)} {succ : List (Nat × List Item)}
    {row : List (Nat × Nat)} (h : RowOf kernels succ row) : row.map Prod.fst = succ.map Prod.fst := by
  induction h with
  | nil => rfl
  | cons hp _ ih => simp [ih, hp.1]

lemma internAll_spec (succ : List (Nat × List Item)) (kernels : Array (List Item)) :
    Extends kernels (internAll kernels succ).1 ∧
    RowOf (internAll kernels succ).1 succ (internAll kernels succ).2 ∧
    (kernels.toList.Nodup → (internAll kernels succ).1.toList.Nodup) ∧
    (∀ k ∈ (internAll kernels succ).1, k ∈ kernels ∨ ∃ p ∈ succ, k = p.2) ∧
    ∀ n < (internAll kernels succ).1.size,
      n < kernels.size ∨ ∃ s, (s, n) ∈ (internAll kernels succ).2 := by
  induction succ generalizing kernels with
  | nil => exact ⟨Extends.refl _, .nil, id, fun k hk => Or.inl hk, fun n hn => Or.inl hn⟩
  | cons p succ ih =>
    obtain ⟨s, kernel⟩ := p
    obtain ⟨he, hk, hd, hm, hn⟩ := intern_spec kernels kernel
    obtain ⟨he', hr', hd', hm', hn'⟩ := ih (intern kernels kernel).1
    simp only [internAll]
    refine ⟨he.trans he', .cons ⟨rfl, he' _ _ hk⟩ hr', fun h => hd' (hd h), ?_, ?_⟩
    · intro k hk
      rcases hm' k hk with hk | ⟨q, hq, rfl⟩
      · rcases hm k hk with hk | rfl
        · exact Or.inl hk
        · exact Or.inr ⟨(s, _), List.mem_cons_self, rfl⟩
      · exact Or.inr ⟨q, by simp [hq], rfl⟩
    · intro n hlt
      rcases hn' n hlt with hlt | ⟨t, ht⟩
      · rcases hn n hlt with hlt | rfl
        · exact Or.inl hlt
        · exact Or.inr ⟨s, by simp⟩
      · exact Or.inr ⟨t, by simp [ht]⟩

end Intern

section Explore

variable (G)

def items : List Item :=
  (List.range G.rules.size).flatMap fun n => (List.range ((G.right n).length + 1)).map (⟨n, ·⟩)

lemma mem_items {i : Item} : i ∈ G.items ↔ i.Valid G := by
  simp only [items, List.mem_flatMap, List.mem_range, List.mem_map, Nat.lt_succ_iff]
  constructor
  · rintro ⟨n, hn, d, hd, rfl⟩
    exact ⟨hn, hd⟩
  · exact fun hi => ⟨i.rule, hi.rule_lt, i.dot, hi.dot_le, rfl⟩

lemma items_pairwise : G.items.Pairwise Item.Before := by
  rw [items, List.pairwise_flatMap]
  refine ⟨fun n _ => ?_, List.pairwise_lt_range.imp fun hlt i hi j hj => ?_⟩
  · rw [List.pairwise_map]
    exact List.pairwise_lt_range.imp fun hlt => Or.inr ⟨rfl, hlt⟩
  · obtain ⟨_, _, rfl⟩ := List.mem_map.mp hi
    obtain ⟨_, _, rfl⟩ := List.mem_map.mp hj
    exact Or.inl hlt

lemma items_length : G.items.length = G.itemCount := by
  have hsum : ∀ (rules : List NumberedRule) (n : Nat),
      rules.foldl (fun n r => n + r.right.length + 1) n = n + (rules.map (·.right.length + 1)).sum := by
    intro rules
    induction rules with
    | nil => simp
    | cons r rules ih =>
      intro n
      rw [List.foldl_cons, ih, List.map_cons, List.sum_cons]
      omega
  have hmap : (List.range G.rules.size).map (fun n => (G.right n).length + 1) =
      G.rules.toList.map (·.right.length + 1) := by
    apply List.ext_getElem
    · simp
    · intro n h h'
      simp at h
      simp [right, h]
  rw [itemCount, ← Array.foldl_toList, hsum, ← hmap]
  simp [items, List.length_flatMap]

structure Explored (C : Collection) : Prop where
  start : C.kernels[0]? = some [⟨0, 0⟩]
  nodup : C.kernels.toList.Nodup
  sorted : ∀ k ∈ C.kernels, k.Pairwise Item.Before
  valid : ∀ k ∈ C.kernels, ∀ i ∈ k, i.Valid G
  size_le : C.transitions.size ≤ C.kernels.size
  rows : ∀ (s : Nat) row, C.transitions[s]? = some row → ∃ kernel, C.kernels[s]? = some kernel ∧
    RowOf C.kernels (G.successors (G.closure kernel)) row
  entered : ∀ t < C.kernels.size, t ≠ 0 → ∃ s < t, ∃ row, C.transitions[s]? = some row ∧ ∃ x, (x, t) ∈ row

variable {G}

lemma Explored.size_le_pow {C : Collection} (h : G.Explored C) : C.kernels.size ≤ 2 ^ G.itemCount := by
  have hsub : C.kernels.toList ⊆ G.items.sublists := by
    intro k hk
    have hk' : k ∈ C.kernels := by simpa using hk
    have hs := h.sorted k hk'
    rw [List.mem_sublists]
    refine List.sublist_of_subperm_of_pairwise (List.subperm_of_subset hs.nodup fun i hi => ?_) hs
      G.items_pairwise
    exact G.mem_items.mpr (h.valid k hk' i hi)
  have hh := (List.subperm_of_subset h.nodup hsub).length_le
  rwa [List.length_sublists, items_length, Array.length_toList] at hh

lemma Explored.step (hw : G.WellFormed) {C : Collection} (h : G.Explored C) {kernel : List Item}
    (hk : C.kernels[C.transitions.size]? = some kernel) :
    G.Explored ⟨(internAll C.kernels (G.successors (G.closure kernel))).1,
      C.transitions.push (internAll C.kernels (G.successors (G.closure kernel))).2⟩ := by
  obtain ⟨he, hr, hd, hm, hn⟩ := internAll_spec (G.successors (G.closure kernel)) C.kernels
  have hkernel := Array.mem_of_getElem? hk
  have hlt := (Array.getElem?_eq_some_iff.mp hk).1
  have hnew : ∀ p ∈ G.successors (G.closure kernel), p.2 = G.movedOver (G.closure kernel) p.1 :=
    fun p hp => (mem_successors.mp hp).2
  refine ⟨he _ _ h.start, hd h.nodup, ?_, ?_, ?_, ?_, ?_⟩
  · intro k hk
    rcases hm k hk with hk | ⟨p, hp, rfl⟩
    · exact h.sorted k hk
    · rw [hnew p hp]
      exact movedOver_pairwise (closure_pairwise (h.sorted kernel hkernel)) _
  · intro k hk
    rcases hm k hk with hk | ⟨p, hp, rfl⟩
    · exact h.valid k hk
    · rw [hnew p hp]
      intro j hj
      obtain ⟨i, hi, hn, rfl⟩ := mem_movedOver.mp hj
      exact advance_valid (((mem_closure hw).mp hi).valid (h.valid kernel hkernel)) hn
  · have hsize := he.size_le
    simp only [Array.size_push]
    omega
  · intro s row hs
    rw [Array.getElem?_push] at hs
    split at hs
    · rename_i heq
      obtain rfl := Option.some.inj hs
      exact ⟨kernel, he _ _ (heq ▸ hk), hr⟩
    · obtain ⟨k, hk', hrow⟩ := h.rows s row hs
      exact ⟨k, he _ _ hk', hrow.extend he⟩
  · intro t ht hne
    by_cases hold : t < C.kernels.size
    · obtain ⟨s, hs, row, hrow, hx⟩ := h.entered t hold hne
      refine ⟨s, hs, row, ?_, hx⟩
      have hlt := (Array.getElem?_eq_some_iff.mp hrow).1
      rw [Array.getElem?_push, if_neg (by omega), hrow]
    · obtain ⟨x, hx⟩ := (hn t ht).resolve_left hold
      exact ⟨C.transitions.size, by omega, _, by simp, x, hx⟩

lemma explore_spec (hw : G.WellFormed) (fuel : Nat) {C : Collection} (h : G.Explored C)
    (hf : 2 ^ G.itemCount < fuel + C.transitions.size) :
    G.Explored (G.explore fuel C.transitions.size C) ∧
      (G.explore fuel C.transitions.size C).transitions.size =
        (G.explore fuel C.transitions.size C).kernels.size := by
  induction fuel generalizing C with
  | zero =>
    have hle := h.size_le_pow
    have hle' := h.size_le
    omega
  | succ fuel ih =>
    rw [explore]
    split
    · rename_i hnone
      rw [Array.getElem?_eq_none_iff] at hnone
      exact ⟨h, le_antisymm h.size_le hnone⟩
    · rename_i kernel hk
      have hs := h.step hw hk
      have hh := ih hs (by simp only [Array.size_push]; omega)
      simpa only [Array.size_push] using hh

lemma explored_start (hw : G.WellFormed) : G.Explored ⟨#[[⟨0, 0⟩]], #[]⟩ := by
  refine ⟨rfl, by simp, by simp, ?_, by simp, by simp, ?_⟩
  · intro k hk i hi
    simp only [List.mem_toArray, List.mem_singleton] at hk
    subst hk
    rw [List.mem_singleton] at hi
    subst hi
    exact ⟨hw.rules_pos, Nat.zero_le _⟩
  · intro t ht hne
    simp at ht
    omega

lemma collection_spec (hw : G.WellFormed) :
    G.Explored G.collection ∧ G.collection.transitions.size = G.collection.size :=
  explore_spec hw _ (explored_start hw) (by simp)

end Explore

end NumberedGrammar

namespace Collection

def kernel (C : Collection) (s : Nat) : List Item := C.kernels.getD s []

def follow (C : Collection) : Nat → List Nat → Option Nat
  | s, [] => some s
  | s, x :: g => (C.goto? s x).bind fun t => follow C t g

lemma follow_concat (C : Collection) (s : Nat) (g : List Nat) (x : Nat) :
    C.follow s (g ++ [x]) = (C.follow s g).bind (C.goto? · x) := by
  induction g generalizing s with
  | nil => cases h : C.goto? s x <;> simp [follow, h]
  | cons y g ih =>
    rw [List.cons_append, follow, follow]
    cases C.goto? s y with
    | none => rfl
    | some t => exact ih t

end Collection

namespace NumberedGrammar

variable {G : NumberedGrammar}

lemma collection_row (hw : G.WellFormed) {s : Nat} (hs : s < G.collection.size) :
    RowOf G.collection.kernels (G.successors (G.closure (G.collection.kernel s)))
      (G.collection.transitions.getD s []) := by
  obtain ⟨he, hfull⟩ := collection_spec hw
  have hlt : s < G.collection.transitions.size := hfull ▸ hs
  obtain ⟨kernel, hk, hrow⟩ := he.rows s _ (Array.getElem?_eq_getElem hlt)
  have hk' : G.collection.kernel s = kernel := by simp [Collection.kernel, hk]
  rwa [hk', Array.getD_eq_getD_getElem?, Array.getElem?_eq_getElem hlt]

lemma row_pairwise (hw : G.WellFormed) (s : Nat) :
    (G.collection.transitions.getD s []).Pairwise (·.1 < ·.1) := by
  by_cases hs : s < G.collection.size
  · have hh := G.successors_pairwise (G.closure (G.collection.kernel s))
    rw [← List.pairwise_map (f := Prod.fst) (R := (· < ·)), ← (collection_row hw hs).keys] at hh
    exact List.pairwise_map.mp hh
  · have hfull := (collection_spec hw).2
    simp [Array.getElem?_eq_none (show G.collection.transitions.size ≤ s by omega)]

lemma goto?_lt (hw : G.WellFormed) {s x t : Nat} (h : G.collection.goto? s x = some t) :
    s < G.collection.size := by
  by_contra hs
  have hfull := (collection_spec hw).2
  rw [Collection.goto?, Array.getD_eq_getD_getElem?,
    Array.getElem?_eq_none (show G.collection.transitions.size ≤ s by omega)] at h
  simp at h

lemma goto?_kernel (hw : G.WellFormed) {s x t : Nat} (h : G.collection.goto? s x = some t) :
    t < G.collection.size ∧
      G.collection.kernel t = G.movedOver (G.closure (G.collection.kernel s)) x := by
  rw [Collection.goto?] at h
  rcases (collection_row hw (goto?_lt hw h)).lookup x with hl | ⟨t', k, ht, hk, hk'⟩
  · rw [h] at hl
    simp at hl
  · obtain rfl : t = t' := Option.some.inj (h.symm.trans ht)
    rw [lookup_successors] at hk
    split at hk
    · simp at hk
    · obtain rfl := Option.some.inj hk
      exact ⟨(Array.getElem?_eq_some_iff.mp hk').1, by simp [Collection.kernel, hk']⟩

lemma goto?_isSome (hw : G.WellFormed) {s x : Nat} (hs : s < G.collection.size) {i : Item}
    (hi : i ∈ G.closure (G.collection.kernel s)) (hn : i.next? G = some x) :
    ∃ t, G.collection.goto? s x = some t := by
  have hmem : i.advance ∈ G.movedOver (G.closure (G.collection.kernel s)) x :=
    mem_movedOver.mpr ⟨i, hi, hn, rfl⟩
  rcases (collection_row hw hs).lookup x with hl | ⟨t, _, ht, _⟩
  · rw [lookup_successors, if_neg (List.ne_nil_of_mem hmem)] at hl
    simp at hl
  · exact ⟨t, ht⟩

lemma exists_item_of_goto? (hw : G.WellFormed) {s x t : Nat} (h : G.collection.goto? s x = some t) :
    ∃ i ∈ G.closure (G.collection.kernel s), i.next? G = some x := by
  rw [Collection.goto?] at h
  rcases (collection_row hw (goto?_lt hw h)).lookup x with ⟨hl, _⟩ | ⟨_, k, _, hk, _⟩
  · rw [h] at hl
    cases hl
  · rw [lookup_successors] at hk
    split at hk
    · cases hk
    · rename_i hne
      obtain ⟨j, hj⟩ := List.exists_mem_of_ne_nil _ hne
      obtain ⟨i, hi, hn, _⟩ := mem_movedOver.mp hj
      exact ⟨i, hi, hn⟩

lemma kernel_zero (hw : G.WellFormed) : 0 < G.collection.size ∧ G.collection.kernel 0 = [⟨0, 0⟩] := by
  have hh := (collection_spec hw).1.start
  exact ⟨(Array.getElem?_eq_some_iff.mp hh).1, by simp [Collection.kernel, hh]⟩

variable (G) in
lemma kernel_cases (s : Nat) :
    G.collection.kernel s = [] ∨ G.collection.kernel s ∈ G.collection.kernels := by
  rw [Collection.kernel, Array.getD_eq_getD_getElem?]
  cases hk : G.collection.kernels[s]? with
  | none => exact Or.inl rfl
  | some k => exact Or.inr (Array.mem_of_getElem? hk)

lemma lt_size_of_mem_kernel {s : Nat} {i : Item} (hi : i ∈ G.collection.kernel s) : s < G.collection.size := by
  by_contra hge
  rw [Collection.kernel, Array.getD_eq_getD_getElem?, Array.getElem?_eq_none (Nat.not_lt.mp hge)] at hi
  cases hi

lemma lt_size_of_mem_closure (hw : G.WellFormed) {s : Nat} {i : Item}
    (hi : i ∈ G.closure (G.collection.kernel s)) : s < G.collection.size := by
  rw [mem_closure hw] at hi
  induction hi with
  | base hi => exact lt_size_of_mem_kernel hi
  | initial _ _ _ ih => exact ih

lemma kernel_valid (hw : G.WellFormed) {s : Nat} {i : Item} (hi : i ∈ G.collection.kernel s) :
    i.Valid G := by
  rcases G.kernel_cases s with hk | hk
  · simp [hk] at hi
  · exact (collection_spec hw).1.valid _ hk i hi

lemma kernel_pairwise (hw : G.WellFormed) (s : Nat) :
    (G.collection.kernel s).Pairwise Item.Before := by
  rcases G.kernel_cases s with hk | hk
  · simp [hk]
  · exact (collection_spec hw).1.sorted _ hk

lemma exists_follow (hw : G.WellFormed) {t : Nat} (ht : t < G.collection.size) :
    ∃ g, G.collection.follow 0 g = some t := by
  induction t using Nat.strong_induction_on with
  | _ t ih =>
    by_cases h0 : t = 0
    · exact ⟨[], by rw [h0]; rfl⟩
    · obtain ⟨s, hs, row, hrow, x, hx⟩ := (collection_spec hw).1.entered t ht h0
      obtain ⟨g, hg⟩ := ih s hs (hs.trans ht)
      refine ⟨g ++ [x], ?_⟩
      have hp := row_pairwise hw s
      rw [Collection.follow_concat, hg, Option.bind_some, Collection.goto?,
        lookup_eq_some_iff_mem (nodup_keys hp)]
      simpa [hrow] using hx

end NumberedGrammar

end Ramify.LR
