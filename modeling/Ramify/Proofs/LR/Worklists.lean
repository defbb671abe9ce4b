import Ramify.Proofs.LR.RelabelledClosures

/-! Closures by a worklist. An item that is visited hands its lookaheads on to the initial items of the nonterminal at
its mark, and each of these that is new or learns something waits to be visited again. Whichever item is visited next,
all visits but one for each kernel item are paid for by something that was learned, so that visiting ends; where
nothing waits, every item has handed on what it has, and the map is the least that is closed. -/

namespace Ramify.LR

namespace ItemSet

instance : LE ItemSet := ⟨fun I J => I.items ⊆ J.items ∧ I.looks ⊆ J.looks⟩

variable {I J K : ItemSet}

lemma le_refl (I : ItemSet) : I ≤ I := ⟨subset_rfl, subset_rfl⟩

lemma le_trans (h : I ≤ J) (h' : J ≤ K) : I ≤ K := ⟨h.1.trans h'.1, h.2.trans h'.2⟩

lemma le_antisymm (h : I ≤ J) (h' : J ≤ I) : I = J := ItemSet.ext (h.1.antisymm h'.1) (h.2.antisymm h'.2)

def HandsOn (G : NumberedGrammar) (I J : ItemSet) (i : Item) : Prop :=
  ∀ (n : Nat) (r : NumberedRule), G.rules[n]? = some r → i.next? G = some r.left → ⟨n, 0⟩ ∈ J.items ∧
    ∀ a, G.Begins (i.beyond G) a ∨ G.Derives (i.beyond G) [] ∧ (i, a) ∈ I.looks → (⟨n, 0⟩, a) ∈ J.looks

def Closed (G : NumberedGrammar) (I : ItemSet) : Prop := ∀ i ∈ I.items, HandsOn G I I i

variable {G : NumberedGrammar}

lemma HandsOn.mono {I' J' : ItemSet} {i : Item} (h : HandsOn G I J i) (hI : ∀ a, (i, a) ∈ I'.looks → (i, a) ∈ I.looks)
    (hJ : J ≤ J') : HandsOn G I' J' i := by
  intro n r hr hn
  obtain ⟨hitem, hlooks⟩ := h n r hr hn
  exact ⟨hJ.1 hitem, fun a ha => hJ.2 (hlooks a (ha.imp_right fun h => ⟨h.1, hI a h.2⟩))⟩

lemma le_closure (I : ItemSet) : I ≤ I.closure G := ⟨fun _ hi => .base hi, fun _ hp => .base hp⟩

lemma closed_closure (I : ItemSet) : (I.closure G).Closed G := by
  intro i hi n r hr hn
  refine ⟨.initial hi hr hn, fun a ha => ?_⟩
  rcases ha with hb | ⟨hd, ha⟩
  · exact .generated hi hr hn hb
  · exact .passed ha hr hn hd

lemma closure_le (hI : ∀ p ∈ I.looks, p.1 ∈ I.items) (h : I ≤ J) (hJ : J.Closed G) : I.closure G ≤ J := by
  have hitems : ∀ i, G.Closure I.items i → i ∈ J.items := by
    intro i hi
    induction hi with
    | base hi => exact h.1 hi
    | initial _ hr hn ih => exact (hJ _ ih _ _ hr hn).1
  refine ⟨hitems, fun ⟨i, a⟩ hp => ?_⟩
  have hlooks : G.Looks I i a := hp
  clear hp
  induction hlooks with
  | base hp => exact h.2 hp
  | generated hi hr hn hb => exact (hJ _ (hitems _ hi) _ _ hr hn).2 _ (Or.inl hb)
  | passed hl hr hn hd ih => exact (hJ _ (hitems _ (hl.closure hI)) _ _ hr hn).2 _ (Or.inr ⟨hd, ih⟩)

lemma looks_ofLookaheads (K : Lookaheads) : ∀ p ∈ (ofLookaheads K).looks, p.1 ∈ (ofLookaheads K).items :=
  fun _ ⟨la, hi, _⟩ => ⟨la, hi⟩

lemma closure_isLeast (K : Lookaheads) :
    IsLeast {J | ofLookaheads K ≤ J ∧ J.Closed G} ((ofLookaheads K).closure G) :=
  ⟨⟨le_closure _, closed_closure _⟩, fun _ hJ => closure_le (looks_ofLookaheads K) hJ.1 hJ.2⟩

def marks (I : ItemSet) : Set (Item × Option Nat) :=
  {p | match p.2 with
    | none => p.1 ∈ I.items
    | some a => (p.1, a) ∈ I.looks}

lemma marks_subset : I.marks ⊆ J.marks ↔ I ≤ J := by
  constructor
  · exact fun h => ⟨fun i hi => h (a := (i, none)) hi, fun p hp => h (a := (p.1, some p.2)) hp⟩
  · rintro h ⟨i, _ | a⟩ hp
    · exact h.1 hp
    · exact h.2 hp

lemma finite_marks (K : Lookaheads) : (ofLookaheads K).marks.Finite := by
  have hfinite : (⋃ p ∈ {p | p ∈ K}, (Set.insert none (some '' Set.Iio p.2)).image fun a => (p.1, a)).Finite :=
    (List.finite_toSet K).biUnion fun p _ => (((Set.finite_Iio p.2).image some).insert none).image _
  refine hfinite.subset ?_
  rintro ⟨i, _ | a⟩ hp
  · obtain ⟨la, hi⟩ := hp
    exact Set.mem_biUnion hi ⟨none, Set.mem_insert _ _, rfl⟩
  · obtain ⟨la, hi, ha⟩ := hp
    have hlt : a < la := Nat.lt_two_pow_self.trans_le (Nat.ge_two_pow_of_testBit ha)
    exact Set.mem_biUnion hi ⟨some a, Set.mem_insert_of_mem _ ⟨a, hlt, rfl⟩, rfl⟩

end ItemSet

namespace Analysis

def receive (la : Nat) (state : Lookaheads × List Item) (n : Nat) : Lookaheads × List Item :=
  let found := mergeLookaheads state.1 [(⟨n, 0⟩, la)]
  if found = state.1 then state else (found, ⟨n, 0⟩ :: state.2)

section Visits

variable (A : Analysis)

def visit (i : Item) (state : Lookaheads × List Item) : Lookaheads × List Item :=
  match i.next? A.grammar with
  | some s =>
    if s < A.grammar.nonterminals then
      let la := A.firstSets.ofSeq (i.beyond A.grammar) ((state.1.lookup i).getD 0)
      (A.grammar.rulesOf s).foldl (receive la) state
    else state
  | none => state

def workOff : Nat → Lookaheads → List Item → Option Lookaheads
  | _, found, [] => some found
  | 0, _, _ :: _ => none
  | visits + 1, found, i :: waiting =>
    let state := A.visit i (found, waiting)
    workOff visits state.1 state.2

/-- What has been found, and which items wait, after some visits in any order to the items that wait. -/
inductive Visited (kernel : Lookaheads) : Nat → Lookaheads → List Item → Prop
  | start {waiting : List Item} : waiting.Perm (kernel.map Prod.fst) → Visited kernel 0 kernel waiting
  | visit {n : Nat} {found : Lookaheads} {waiting rest : List Item} {i : Item} : Visited kernel n found waiting →
      waiting.Perm (i :: rest) → Visited kernel (n + 1) (A.visit i (found, rest)).1 (A.visit i (found, rest)).2

end Visits

section Receive

variable {found : Lookaheads} {la n : Nat} {state state' state'' : Lookaheads × List Item} {ns : List Nat}

noncomputable def missing (C : ItemSet) (found : Lookaheads) : Nat :=
  (C.marks \ (ItemSet.ofLookaheads found).marks).ncard

structure Learns (state state' : Lookaheads × List Item) : Prop where
  sorted : Sorted state.1 → Sorted state'.1
  le : ItemSet.ofLookaheads state.1 ≤ ItemSet.ofLookaheads state'.1
  waits : ∀ i ∈ state.2, i ∈ state'.2
  items : ∀ i ∉ state'.2, i ∈ (ItemSet.ofLookaheads state'.1).items → i ∈ (ItemSet.ofLookaheads state.1).items
  looks : ∀ i ∉ state'.2, ∀ a,
    (i, a) ∈ (ItemSet.ofLookaheads state'.1).looks → (i, a) ∈ (ItemSet.ofLookaheads state.1).looks
  found : ∀ i ∈ state'.2, i ∈ state.2 ∨ i ∈ (ItemSet.ofLookaheads state'.1).items
  missing_le : Sorted state.1 → ∀ C : ItemSet, C.marks.Finite → ItemSet.ofLookaheads state'.1 ≤ C →
    state'.2.length + missing C state'.1 ≤ state.2.length + missing C state.1

lemma Learns.refl (state : Lookaheads × List Item) : Learns state state :=
  ⟨id, ItemSet.le_refl _, fun _ hi => hi, fun _ _ hi => hi, fun _ _ _ hi => hi, fun _ hi => Or.inl hi,
    fun _ _ _ _ => le_rfl⟩

lemma Learns.trans (h : Learns state state') (h' : Learns state' state'') : Learns state state'' where
  sorted hs := h'.sorted (h.sorted hs)
  le := ItemSet.le_trans h.le h'.le
  waits i hi := h'.waits i (h.waits i hi)
  items i hi hmem := h.items i (fun hw => hi (h'.waits i hw)) (h'.items i hi hmem)
  looks i hi a hmem := h.looks i (fun hw => hi (h'.waits i hw)) a (h'.looks i hi a hmem)
  found i hi := by
    rcases h'.found i hi with hw | hf
    · exact (h.found i hw).imp_right fun hf => h'.le.1 hf
    · exact Or.inr hf
  missing_le hs C hfinite hle :=
    (h'.missing_le (h.sorted hs) C hfinite hle).trans (h.missing_le hs C hfinite (ItemSet.le_trans h'.le hle))

lemma mem_merge_single (found : Lookaheads) (j i : Item) (la : Nat) :
    i ∈ (ItemSet.ofLookaheads (mergeLookaheads found [(j, la)])).items ↔
      i ∈ (ItemSet.ofLookaheads found).items ∨ i = j := by
  refine (mem_mergeLookaheads _ _ i).trans (or_congr_right ?_)
  simp

lemma mem_merge_single_looks (found : Lookaheads) (j i : Item) (la a : Nat) :
    (i, a) ∈ (ItemSet.ofLookaheads (mergeLookaheads found [(j, la)])).looks ↔
      (i, a) ∈ (ItemSet.ofLookaheads found).looks ∨ i = j ∧ la.testBit a = true := by
  refine (testBit_mergeLookaheads _ _ i a).trans (or_congr_right ?_)
  simp

lemma receive_fst (la : Nat) (state : Lookaheads × List Item) (n : Nat) :
    (receive la state n).1 = mergeLookaheads state.1 [(⟨n, 0⟩, la)] := by
  rw [receive]
  split
  · exact Eq.symm ‹_›
  · rfl

lemma missing_lt {found found' : Lookaheads} (hs : Sorted found) (hs' : Sorted found') (hne : found' ≠ found)
    (hle : ItemSet.ofLookaheads found ≤ ItemSet.ofLookaheads found') {C : ItemSet} (hfinite : C.marks.Finite)
    (hC : ItemSet.ofLookaheads found' ≤ C) : missing C found' < missing C found := by
  have hsub := ItemSet.marks_subset.mpr hle
  have hnot : ¬ (ItemSet.ofLookaheads found').marks ⊆ (ItemSet.ofLookaheads found).marks := fun hsup =>
    hne (hs'.ext hs (ItemSet.le_antisymm (ItemSet.marks_subset.mp hsup) hle))
  obtain ⟨p, hp, hnew⟩ := Set.not_subset.mp hnot
  refine Set.ncard_lt_ncard ?_ hfinite.sdiff
  refine Set.ssubset_iff_of_subset (Set.sdiff_subset_sdiff_right hsub) |>.mpr ⟨p, ⟨?_, hnew⟩, fun h => h.2 hp⟩
  exact ItemSet.marks_subset.mpr hC hp

lemma learns_receive (la : Nat) (state : Lookaheads × List Item) (n : Nat) : Learns state (receive la state n) := by
  by_cases hsame : mergeLookaheads state.1 [(⟨n, 0⟩, la)] = state.1
  · rw [receive, if_pos hsame]
    exact .refl state
  · have hle : ItemSet.ofLookaheads state.1 ≤ ItemSet.ofLookaheads (mergeLookaheads state.1 [(⟨n, 0⟩, la)]) :=
      ⟨fun i hi => (mem_merge_single _ _ i la).mpr (Or.inl hi),
        fun p hp => (mem_merge_single_looks _ _ p.1 la p.2).mpr (Or.inl hp)⟩
    have hsorted : Sorted state.1 → Sorted (mergeLookaheads state.1 [(⟨n, 0⟩, la)]) := fun hs =>
      hs.mergeLookaheads (List.pairwise_singleton _ _)
    rw [receive, if_neg hsame]
    refine ⟨hsorted, hle, fun i hi => List.mem_cons_of_mem _ hi, fun i hi hmem => ?_, fun i hi a hmem => ?_,
      fun i hi => ?_, fun hs C hfinite hC => ?_⟩
    · rw [List.mem_cons, not_or] at hi
      exact ((mem_merge_single _ _ i la).mp hmem).resolve_right hi.1
    · rw [List.mem_cons, not_or] at hi
      exact ((mem_merge_single_looks _ _ i la a).mp hmem).resolve_right fun h => hi.1 h.1
    · rcases List.mem_cons.mp hi with rfl | hi
      · exact Or.inr ((mem_merge_single _ _ _ la).mpr (Or.inr rfl))
      · exact Or.inl hi
    · have hlt := missing_lt hs (hsorted hs) hsame hle hfinite hC
      rw [List.length_cons]
      dsimp only
      omega

lemma learns_foldl (la : Nat) (ns : List Nat) (state : Lookaheads × List Item) :
    Learns state (ns.foldl (receive la) state) :=
  foldl_invariant (P := Learns state) (fun acc hacc n _ => hacc.trans (learns_receive la acc n)) (.refl state)

end Receive

section Visit

variable {G : NumberedGrammar} {kernel found : Lookaheads} {waiting rest : List Item} {i : Item}

lemma mem_rulesOf {n s : Nat} : n ∈ G.rulesOf s ↔ ∃ r, G.rules[n]? = some r ∧ r.left = s := by
  rw [NumberedGrammar.rulesOf, List.mem_filter, List.mem_range]
  constructor
  · rintro ⟨_, h⟩
    simpa [Option.any_eq_true] using h
  · rintro ⟨r, hr, rfl⟩
    exact ⟨(Array.getElem?_eq_some_iff.mp hr).1, by simp [hr]⟩

lemma Sorted.testBit_lookup (hs : Sorted found) (i : Item) (a : Nat) :
    ((found.lookup i).getD 0).testBit a = true ↔ (i, a) ∈ (ItemSet.ofLookaheads found).looks := by
  change _ ↔ ∃ la, (i, la) ∈ found ∧ la.testBit a = true
  simp only [← lookup_eq_some_iff_mem hs.nodup]
  cases found.lookup i <;> simp

lemma learns_visit (A : Analysis) (i : Item) (state : Lookaheads × List Item) : Learns state (A.visit i state) := by
  rw [visit]
  split
  · split
    · exact learns_foldl _ _ state
    · exact .refl state
  · exact .refl state

lemma testBit_handed (hin : G.InRange) (hs : Sorted found) (i : Item) (a : Nat) :
    (G.firstSets.ofSeq (i.beyond G) ((found.lookup i).getD 0)).testBit a = true ↔
      G.Begins (i.beyond G) a ∨ G.Derives (i.beyond G) [] ∧ (i, a) ∈ (ItemSet.ofLookaheads found).looks := by
  rw [NumberedGrammar.testBit_beyond_iff hin, hs.testBit_lookup]

lemma handsOn_visit (hin : G.InRange) (state : Lookaheads × List Item) (hs : Sorted state.1) (i : Item) :
    ItemSet.HandsOn G (.ofLookaheads state.1) (.ofLookaheads ((ofGrammar G).visit i state).1) i := by
  intro n r hr hn
  have hmem : n ∈ G.rulesOf r.left := mem_rulesOf.mpr ⟨r, hr, rfl⟩
  let la := G.firstSets.ofSeq (i.beyond G) ((state.1.lookup i).getD 0)
  let Received (state : Lookaheads × List Item) : Prop := ⟨n, 0⟩ ∈ (ItemSet.ofLookaheads state.1).items ∧
    ∀ a, la.testBit a = true → (⟨n, 0⟩, a) ∈ (ItemSet.ofLookaheads state.1).looks
  have hreceived : Received ((G.rulesOf r.left).foldl (receive la) state) := by
    refine foldl_reaches (P := fun _ => True) (fun _ _ _ _ => trivial) (fun acc hacc m _ => ?_) hmem
      (fun acc _ => ?_) trivial
    · have hle := (learns_receive la acc m).le
      exact ⟨hle.1 hacc.1, fun a ha => hle.2 (hacc.2 a ha)⟩
    · simp only [Received, receive_fst]
      exact ⟨(mem_merge_single _ _ _ _).mpr (Or.inr rfl),
        fun a ha => (mem_merge_single_looks _ _ _ _ a).mpr (Or.inr ⟨rfl, ha⟩)⟩
  have hvisit : (ofGrammar G).visit i state = (G.rulesOf r.left).foldl (receive la) state := by
    rw [visit]
    change (match i.next? G with
      | some s => if s < G.nonterminals then _ else _
      | none => _) = _
    rw [hn]
    exact if_pos (hin.left_lt r (Array.mem_of_getElem? hr))
  rw [hvisit]
  exact ⟨hreceived.1, fun a ha => hreceived.2 a ((testBit_handed hin hs i a).mpr ha)⟩

lemma visit_le (hin : G.InRange) (state : Lookaheads × List Item) (hs : Sorted state.1) {C : ItemSet}
    (hle : ItemSet.ofLookaheads state.1 ≤ C) (hC : ItemSet.HandsOn G C C i) :
    ItemSet.ofLookaheads ((ofGrammar G).visit i state).1 ≤ C := by
  rw [visit]
  split
  · rename_i s hn
    split
    · refine foldl_invariant (P := fun state : Lookaheads × List Item => ItemSet.ofLookaheads state.1 ≤ C)
        (fun acc hacc n hmem => ?_) hle
      obtain ⟨r, hr, rfl⟩ := mem_rulesOf.mp hmem
      obtain ⟨hitem, hlooks⟩ := hC n r hr hn
      rw [receive_fst]
      refine ⟨fun j hj => ?_, fun ⟨j, a⟩ hj => ?_⟩
      · rcases (mem_merge_single _ _ j _).mp hj with hj | rfl
        · exact hacc.1 hj
        · exact hitem
      · rcases (mem_merge_single_looks _ _ j _ a).mp hj with hj | ⟨rfl, ha⟩
        · exact hacc.2 hj
        · exact hlooks a (((testBit_handed hin hs i a).mp ha).imp_right fun h => ⟨h.1, hle.2 h.2⟩)
    · exact hle
  · exact hle

structure Progress (G : NumberedGrammar) (kernel found : Lookaheads) (waiting : List Item) : Prop where
  sorted : Sorted found
  kernel_le : ItemSet.ofLookaheads kernel ≤ .ofLookaheads found
  within : ItemSet.ofLookaheads found ≤ (ItemSet.ofLookaheads kernel).closure G
  waits : ∀ i ∈ waiting, i ∈ (ItemSet.ofLookaheads found).items
  handed : ∀ i ∈ (ItemSet.ofLookaheads found).items, i ∉ waiting →
    ItemSet.HandsOn G (.ofLookaheads found) (.ofLookaheads found) i

lemma progress_start (hk : Sorted kernel) (hperm : waiting.Perm (kernel.map Prod.fst)) :
    Progress G kernel kernel waiting := by
  have hmem : ∀ i, i ∈ waiting ↔ i ∈ (ItemSet.ofLookaheads kernel).items := by
    intro i
    rw [hperm.mem_iff]
    simp [ItemSet.ofLookaheads]
  exact ⟨hk, ItemSet.le_refl _, ItemSet.le_closure _, fun i hi => (hmem i).mp hi,
    fun i hi hnot => absurd ((hmem i).mpr hi) hnot⟩

lemma Progress.visit (hin : G.InRange) (h : Progress G kernel found waiting) (hperm : waiting.Perm (i :: rest)) :
    Progress G kernel ((ofGrammar G).visit i (found, rest)).1 ((ofGrammar G).visit i (found, rest)).2 := by
  have hlearns := learns_visit (ofGrammar G) i (found, rest)
  have hhands := handsOn_visit hin (found, rest) h.sorted i
  have hi : i ∈ (ItemSet.ofLookaheads found).items := h.waits i (hperm.mem_iff.mpr List.mem_cons_self)
  have hrest : ∀ j ∈ rest, j ∈ (ItemSet.ofLookaheads found).items := fun j hj =>
    h.waits j (hperm.mem_iff.mpr (List.mem_cons_of_mem i hj))
  have hwithin := visit_le hin (found, rest) h.sorted h.within (ItemSet.closed_closure _ i (h.within.1 hi))
  refine ⟨hlearns.sorted h.sorted, ItemSet.le_trans h.kernel_le hlearns.le, hwithin, fun j hj => ?_,
    fun j hj hnot => ?_⟩
  · exact (hlearns.found j hj).elim (fun hw => hlearns.le.1 (hrest j hw)) id
  -- What has not been visited now and does not wait again was settled before, and has learned nothing since.
  · by_cases hji : j = i
    · subst hji
      exact hhands.mono (hlearns.looks j hnot) (ItemSet.le_refl _)
    · have hunvisited : j ∉ waiting := by
        rw [hperm.mem_iff, List.mem_cons, not_or]
        exact ⟨hji, fun hw => hnot (hlearns.waits j hw)⟩
      exact (h.handed j (hlearns.items j hnot hj) hunvisited).mono (hlearns.looks j hnot) hlearns.le

lemma Visited.progress (hin : G.InRange) (hk : Sorted kernel) {n : Nat}
    (h : (ofGrammar G).Visited kernel n found waiting) : Progress G kernel found waiting := by
  induction h with
  | start hperm => exact progress_start hk hperm
  | visit _ hperm ih => exact ih.visit hin hperm

lemma Visited.length_le (hin : G.InRange) (hk : Sorted kernel) {n : Nat}
    (h : (ofGrammar G).Visited kernel n found waiting) :
    let C := (ItemSet.ofLookaheads kernel).closure G
    n + waiting.length + missing C found ≤ kernel.length + missing C kernel := by
  intro C
  -- A visit takes one item from those that wait; each that it adds takes something from what is missing.
  induction h with
  | start hperm =>
    rw [hperm.length_eq, List.length_map]
    omega
  | @visit n found waiting rest i hvisited hperm ih =>
    have hprogress := hvisited.progress hin hk
    have hC : C.marks.Finite := by
      have hfinite := ItemSet.finite_marks ((ofGrammar G).closure kernel)
      rwa [closure_isExact hin] at hfinite
    have hle := (learns_visit (ofGrammar G) i (found, rest)).missing_le hprogress.sorted C hC
      (hprogress.visit hin hperm).within
    have hlength := hperm.length_eq
    rw [List.length_cons] at hlength
    dsimp only at hle
    omega

lemma Visited.eq_closure (hin : G.InRange) (hk : Sorted kernel) {n : Nat}
    (h : (ofGrammar G).Visited kernel n found []) : found = (ofGrammar G).closure kernel := by
  have hprogress := h.progress hin hk
  refine hprogress.sorted.ext hk.closure ?_
  rw [closure_isExact hin]
  refine ItemSet.le_antisymm hprogress.within ?_
  exact ItemSet.closure_le (ItemSet.looks_ofLookaheads kernel) hprogress.kernel_le
    fun i hi => hprogress.handed i hi List.not_mem_nil

lemma Visited.workOff (hin : G.InRange) (hk : Sorted kernel) {n : Nat}
    (h : (ofGrammar G).Visited kernel n found waiting) {visits : Nat}
    (hvisits : kernel.length + missing ((ItemSet.ofLookaheads kernel).closure G) kernel ≤ n + visits) :
    (ofGrammar G).workOff visits found waiting = some ((ofGrammar G).closure kernel) := by
  induction visits generalizing n found waiting with
  | zero =>
    have hle := h.length_le hin hk
    obtain rfl : waiting = [] := List.eq_nil_of_length_eq_zero (by omega)
    rw [Analysis.workOff, h.eq_closure hin hk]
  | succ visits ih =>
    cases waiting with
    | nil => rw [Analysis.workOff, h.eq_closure hin hk]
    | cons i rest =>
      rw [Analysis.workOff]
      exact ih (h.visit (List.Perm.refl _)) (by omega)

/-- The closure is what visits in any order lead to, the least closed map, composed of the closures of single items;
a number beyond all symbols tells where the lookaheads of an item go. -/
theorem closure_of_work (hin : G.InRange) (hk : Sorted kernel) :
    let A := ofGrammar G
    (∃ bound, (∀ visits ≥ bound, A.workOff visits kernel (kernel.map Prod.fst).reverse = some (A.closure kernel)) ∧
      ∀ n found waiting, A.Visited kernel n found waiting → n ≤ bound ∧ (waiting = [] → found = A.closure kernel)) ∧
    Sorted (A.closure kernel) ∧
    IsLeast {J | ItemSet.ofLookaheads kernel ≤ J ∧ J.Closed G} (.ofLookaheads (A.closure kernel)) ∧
    (∀ k L mark, G.symbolCount ≤ mark →
      A.closure [(k, L)] = relabel (substitute mark L) (A.closure [(k, 1 <<< mark)])) ∧
    A.closure kernel = union (kernel.map fun p => A.closure [p]) := by
  intro A
  refine ⟨⟨kernel.length + missing ((ItemSet.ofLookaheads kernel).closure G) kernel, fun visits hvisits => ?_,
    fun n found waiting h => ⟨?_, ?_⟩⟩, hk.closure, ?_, fun k L mark hmark => closure_substitute hmark k L,
    closure_eq_union hin hk⟩
  · exact (Visited.start (List.reverse_perm _)).workOff hin hk ((Nat.zero_add visits).symm ▸ hvisits)
  · exact (Nat.le_add_right _ _).trans ((Nat.le_add_right _ _).trans (h.length_le hin hk))
  · rintro rfl
    exact h.eq_closure hin hk
  · rw [closure_isExact hin]
    exact ItemSet.closure_isLeast kernel

theorem closure_of_work_nullable :
    let G : NumberedGrammar := ⟨#[⟨0, [1]⟩, ⟨1, [1, 2]⟩, ⟨1, [3]⟩, ⟨2, [4]⟩, ⟨2, []⟩], 3, 6⟩
    G.InRange ∧ ∃ visits, (ofGrammar G).workOff visits [(⟨0, 0⟩, 32)] [⟨0, 0⟩] =
      some [(⟨0, 0⟩, 32), (⟨1, 0⟩, 48), (⟨2, 0⟩, 48)] := by
  intro G
  have hin : G.InRange := ⟨by decide, by decide, by decide⟩
  have hclosure : (ofGrammar G).closure [(⟨0, 0⟩, 32)] = [(⟨0, 0⟩, 32), (⟨1, 0⟩, 48), (⟨2, 0⟩, 48)] := by decide +kernel
  have hsorted : Sorted [(⟨0, 0⟩, 32)] := List.pairwise_singleton _ _
  obtain ⟨⟨bound, hwork, _⟩, _⟩ := closure_of_work hin hsorted
  exact ⟨hin, bound, (hwork bound le_rfl).trans (congrArg some hclosure)⟩

end Visit

end Analysis

end Ramify.LR
