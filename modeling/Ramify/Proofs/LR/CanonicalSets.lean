import Ramify.Proofs.LR.Propagation

/-! Canonical LR(1) item sets. Each string of symbols that leads to a state leads to one of
them; the lookaheads of the state are those of all of them together, no more and no less. -/

namespace Ramify.LR

namespace ItemSet

def moved (G : NumberedGrammar) (I : ItemSet) (x : Nat) : ItemSet :=
  ⟨{j | ∃ i ∈ I.items, i.next? G = some x ∧ i.advance = j},
    {p | ∃ i, (i, p.2) ∈ I.looks ∧ i.next? G = some x ∧ i.advance = p.1}⟩

def union (family : Set ItemSet) : ItemSet :=
  ⟨{i | ∃ I ∈ family, i ∈ I.items}, {p | ∃ I ∈ family, p ∈ I.looks}⟩

end ItemSet

namespace NumberedGrammar

variable (G : NumberedGrammar)

def canonical (g : List Nat) : ItemSet :=
  g.foldl (fun I x => (I.moved G x).closure G) ((ItemSet.single ⟨0, 0⟩ G.endSymbol).closure G)

/-- The canonical sets that are merged into a state. -/
def canonicalSets (s : Nat) : Set ItemSet := {I | ∃ g, G.collection.follow 0 g = some s ∧ G.canonical g = I}

variable {G}

lemma canonical_concat (g : List Nat) (x : Nat) :
    G.canonical (g ++ [x]) = ((G.canonical g).moved G x).closure G := by
  rw [canonical, List.foldl_append]
  rfl

lemma Closure.of_closure {I : Set Item} {i : Item} (h : G.Closure {j | G.Closure I j} i) : G.Closure I i := by
  induction h with
  | base h => exact h
  | initial _ hr hn ih => exact .initial ih hr hn

lemma Looks.of_closure {I : ItemSet} {i : Item} {a : Nat} (h : G.Looks (I.closure G) i a) : G.Looks I i a := by
  induction h with
  | base h => exact h
  | generated hi hr hn hb => exact .generated hi.of_closure hr hn hb
  | passed _ hr hn hd ih => exact .passed ih hr hn hd

lemma canonical_closed (g : List Nat) {i : Item} {a : Nat} (h : G.Looks (G.canonical g) i a) :
    (i, a) ∈ (G.canonical g).looks := by
  cases g using List.reverseRec with
  | nil => exact Looks.of_closure h
  | append_singleton g x _ =>
    rw [canonical_concat] at h ⊢
    exact Looks.of_closure h

lemma moved_subset_canonical (g : List Nat) {i : Item} {x a : Nat} (h : (i, a) ∈ (G.canonical g).looks)
    (hn : i.next? G = some x) : (i.advance, a) ∈ (G.canonical (g ++ [x])).looks := by
  rw [canonical_concat]
  exact .base ⟨i, h, hn, rfl⟩

lemma follow_concat_eq_some {C : Collection} {s t x : Nat} {g : List Nat} :
    C.follow s (g ++ [x]) = some t ↔ ∃ s', C.follow s g = some s' ∧ C.goto? s' x = some t := by
  rw [Collection.follow_concat, Option.bind_eq_some_iff]

lemma canonical_items (hw : G.WellFormed) {g : List Nat} {s : Nat} (h : G.collection.follow 0 g = some s) :
    (G.canonical g).items = {i | G.Closure {j | j ∈ G.collection.kernel s} i} := by
  induction g using List.reverseRecOn generalizing s with
  | nil =>
    obtain rfl : 0 = s := Option.some.inj h
    rw [(kernel_zero hw).2]
    simp only [List.mem_singleton]
    rfl
  | append_singleton g x ih =>
    obtain ⟨s', hs', hg⟩ := follow_concat_eq_some.mp h
    have hkernel : ((G.canonical g).moved G x).items = {j | j ∈ G.collection.kernel s} := by
      ext j
      rw [(goto?_kernel hw hg).2]
      change (∃ i ∈ (G.canonical g).items, _) ↔ j ∈ G.movedOver _ _
      rw [ih hs', mem_movedOver]
      simp only [mem_closure hw]
      rfl
    rw [canonical_concat]
    change {i | G.Closure ((G.canonical g).moved G x).items i} = _
    rw [hkernel]

end NumberedGrammar

namespace Analysis

open NumberedGrammar

variable {G : NumberedGrammar}

def kernelSet (G : NumberedGrammar) (s : Nat) : ItemSet := .ofLookaheads ((kernelLookaheads G).getD s [])

lemma kernelSet_items (hw : G.WellFormed) (s : Nat) :
    (kernelSet G s).items = {i | i ∈ G.collection.kernel s} := by
  ext i
  change (∃ la, (i, la) ∈ _) ↔ i ∈ _
  rw [← (sized_kernelLookaheads hw).1.keys s]
  simp

lemma mem_kernelSet_looks (hw : G.WellFormed) {s : Nat} {i : Item} {a : Nat} :
    (i, a) ∈ (kernelSet G s).looks ↔ ((kernelLookaheads G).get ⟨s, i⟩).testBit a = true := by
  have hnodup : (((kernelLookaheads G).getD s []).map Prod.fst).Nodup := by
    rw [(sized_kernelLookaheads hw).1.keys s]
    exact (kernel_pairwise hw s).nodup
  change (∃ la, (i, la) ∈ (kernelLookaheads G).getD s [] ∧ la.testBit a = true) ↔ _
  rw [KernelLookaheads.get]
  simp only [← lookup_eq_some_iff_mem hnodup]
  cases ((kernelLookaheads G).getD s []).lookup i <;> simp

lemma closure_kernel_eq (hw : G.WellFormed) (s : Nat) :
    ItemSet.ofLookaheads ((ofGrammar G).closure ((kernelLookaheads G).getD s [])) =
      (kernelSet G s).closure G := by
  refine closure_exact hw.inRange fun p hp => ?_
  exact ((sized_kernelLookaheads hw).2 s p hp).trans (Nat.pow_lt_pow_right (by omega) (by omega))

lemma kernelSet_looks_items (s : Nat) : ∀ p ∈ (kernelSet G s).looks,
    p.1 ∈ (kernelSet G s).items := by
  rintro ⟨i, a⟩ ⟨la, hi, _⟩
  exact ⟨la, hi⟩

lemma looks_moved (hw : G.WellFormed) {s t x a : Nat} {i : Item} (h : G.Looks (kernelSet G s) i a)
    (hn : i.next? G = some x) (hg : G.collection.goto? s x = some t) :
    (i.advance, a) ∈ (kernelSet G t).looks := by
  have hp := kernelLookaheads_propagates hw
  obtain ⟨k, hk, hcase⟩ := h.exists_single hw (kernelSet_looks_items s)
  rw [kernelSet_items hw] at hk
  rw [mem_kernelSet_looks hw]
  rcases hcase with hgen | ⟨ha, hpass⟩
  · exact hp.generated ⟨s, k⟩ i ⟨t, i.advance⟩ a hk hgen ⟨x, hn, hg, rfl⟩
  · exact hp.passed ⟨s, k⟩ i ⟨t, i.advance⟩ a hk ((mem_kernelSet_looks hw).mp ha) hpass ⟨x, hn, hg, rfl⟩

lemma looks_of_canonical (hw : G.WellFormed) {g : List Nat} {s : Nat}
    (h : G.collection.follow 0 g = some s) {i : Item} {a : Nat} (hi : (i, a) ∈ (G.canonical g).looks) :
    G.Looks (kernelSet G s) i a := by
  induction g using List.reverseRecOn generalizing s i a with
  | nil =>
    obtain rfl : 0 = s := Option.some.inj h
    refine Looks.mono ?_ ?_ hi
    · rw [kernelSet_items hw, (kernel_zero hw).2]
      rintro j rfl
      exact List.mem_singleton_self _
    · rintro _ rfl
      exact (mem_kernelSet_looks hw).mpr (kernelLookaheads_propagates hw).start
  | append_singleton g x ih =>
    obtain ⟨s', hs', hg⟩ := follow_concat_eq_some.mp h
    rw [canonical_concat] at hi
    refine Looks.mono ?_ ?_ hi
    · rw [kernelSet_items hw, (goto?_kernel hw hg).2]
      rintro j ⟨i, hi, hn, rfl⟩
      rw [canonical_items hw hs'] at hi
      exact mem_movedOver.mpr ⟨i, (mem_closure hw).mpr hi, hn, rfl⟩
    · rintro ⟨j, b⟩ ⟨i, hi, hn, rfl⟩
      exact looks_moved hw (ih hs' hi) hn hg

def Canonically (G : NumberedGrammar) (s : Site) (a : Nat) : Prop :=
  ∃ g, G.collection.follow 0 g = some s.state ∧ (s.item, a) ∈ (G.canonical g).looks

lemma mem_canonical_items (hw : G.WellFormed) {g : List Nat} {s : Site}
    (h : G.collection.follow 0 g = some s.state) (hs : s.item ∈ G.collection.kernel s.state) :
    s.item ∈ (G.canonical g).items := by
  rw [canonical_items hw h]
  exact .base hs

lemma Generates.canonical (hw : G.WellFormed) {g : List Nat} {s : Site}
    (h : G.collection.follow 0 g = some s.state) (hs : s.item ∈ G.collection.kernel s.state) {i : Item}
    {a : Nat} (hg : G.Generates s.item i a) : (i, a) ∈ (G.canonical g).looks :=
  canonical_closed g (hg.looks hw (mem_canonical_items hw h hs))

lemma Passes.canonical (hw : G.WellFormed) {g : List Nat} {s : Site}
    (h : G.collection.follow 0 g = some s.state) (hs : s.item ∈ G.collection.kernel s.state) {i : Item}
    {a : Nat} (hp : G.Passes s.item i) (ha : (s.item, a) ∈ (G.canonical g).looks) :
    (i, a) ∈ (G.canonical g).looks :=
  canonical_closed g (hp.looks hw (mem_canonical_items hw h hs) ha)

lemma state_lt_of_mem {s : Site} (hs : s.item ∈ G.collection.kernel s.state) :
    s.state < G.collection.size := by
  by_contra hlt
  rw [Collection.kernel, Array.getD_eq_getD_getElem?, Array.getElem?_eq_none (not_lt.mp hlt)] at hs
  simp at hs

lemma canonically_propagates (hw : G.WellFormed) : G.Propagates (Canonically G) := by
  refine ⟨⟨[], rfl, .base rfl⟩, fun s i t a hs hg hm => ?_, fun s i t a hs ha hp hm => ?_⟩
  · obtain ⟨g, hf⟩ := exists_follow hw (state_lt_of_mem hs)
    obtain ⟨x, hn, hgoto, hi⟩ := hm
    refine ⟨g ++ [x], follow_concat_eq_some.mpr ⟨_, hf, hgoto⟩, ?_⟩
    exact hi ▸ moved_subset_canonical g (Generates.canonical hw hf hs hg) hn
  · obtain ⟨g, hf, ha⟩ := ha
    obtain ⟨x, hn, hgoto, hi⟩ := hm
    refine ⟨g ++ [x], follow_concat_eq_some.mpr ⟨_, hf, hgoto⟩, ?_⟩
    exact hi ▸ moved_subset_canonical g (Passes.canonical hw hf hs hp ha) hn

lemma canonical_of_looks (hw : G.WellFormed) {s : Nat} (hs : s < G.collection.size) {i : Item} {a : Nat}
    (h : G.Looks (kernelSet G s) i a) :
    ∃ g, G.collection.follow 0 g = some s ∧ (i, a) ∈ (G.canonical g).looks := by
  obtain ⟨k, hk, hcase⟩ := h.exists_single hw (kernelSet_looks_items s)
  rw [kernelSet_items hw] at hk
  rcases hcase with hgen | ⟨ha, hpass⟩
  · obtain ⟨g, hf⟩ := exists_follow hw hs
    exact ⟨g, hf, Generates.canonical hw (s := ⟨s, k⟩) hf hk hgen⟩
  · rw [mem_kernelSet_looks hw] at ha
    obtain ⟨g, hf, ha⟩ := kernelLookaheads_least hw (canonically_propagates hw) ha
    exact ⟨g, hf, Passes.canonical hw (s := ⟨s, k⟩) hf hk hpass ha⟩

lemma closure_kernel_eq_union (hw : G.WellFormed) {s : Nat} (hs : s < G.collection.size) :
    ItemSet.ofLookaheads ((ofGrammar G).closure ((kernelLookaheads G).getD s [])) =
      .union (G.canonicalSets s) := by
  rw [closure_kernel_eq hw]
  apply ItemSet.ext
  · ext i
    change G.Closure (kernelSet G s).items i ↔ _
    rw [kernelSet_items hw]
    constructor
    · intro hi
      obtain ⟨g, hf⟩ := exists_follow hw hs
      exact ⟨_, ⟨g, hf, rfl⟩, canonical_items hw hf ▸ hi⟩
    · rintro ⟨_, ⟨g, hf, rfl⟩, hi⟩
      rwa [canonical_items hw hf] at hi
  · ext ⟨i, a⟩
    constructor
    · intro hi
      obtain ⟨g, hf, hi⟩ := canonical_of_looks hw hs hi
      exact ⟨_, ⟨g, hf, rfl⟩, hi⟩
    · rintro ⟨_, ⟨g, hf, rfl⟩, hi⟩
      exact looks_of_canonical hw hf hi

section Reductions

lemma closure_kernel_sorted (hw : G.WellFormed) (s : Nat) :
    Sorted ((ofGrammar G).closure ((kernelLookaheads G).getD s [])) := by
  apply Sorted.closure
  rw [Sorted, (sized_kernelLookaheads hw).1.keys s]
  exact kernel_pairwise hw s

lemma closure_kernel_valid (hw : G.WellFormed) {s : Nat} {i : Item} {la : Nat}
    (h : (i, la) ∈ (ofGrammar G).closure ((kernelLookaheads G).getD s [])) : i.Valid G := by
  have hi : i ∈ ((kernelSet G s).closure G).items := closure_kernel_eq hw s ▸ ⟨la, h⟩
  refine Closure.valid (fun j hj => ?_) hi
  rw [kernelSet_items hw] at hj
  exact kernel_valid hw hj

lemma complete_eq (hw : G.WellFormed) {s : Nat} {i : Item} {la : Nat}
    (h : (i, la) ∈ (ofGrammar G).closure ((kernelLookaheads G).getD s [])) (hc : i.isComplete G = true) :
    i = ⟨i.rule, (G.right i.rule).length⟩ := by
  have hle := (closure_kernel_valid hw h).dot_le
  have hge : (G.right i.rule).length ≤ i.dot := of_decide_eq_true hc
  exact congrArg (Item.mk i.rule) (Nat.le_antisymm hle hge)

lemma mem_reductions {kernel : Lookaheads} {r la : Nat} : (r, la) ∈ (ofGrammar G).reductions kernel ↔
    ∃ i, (i, la) ∈ (ofGrammar G).closure kernel ∧ i.isComplete G = true ∧ i.rule = r := by
  rw [reductions, List.mem_filterMap]
  constructor
  · rintro ⟨⟨i, lb⟩, hi, h⟩
    obtain ⟨hc, he⟩ := Option.ite_none_right_eq_some.mp h
    obtain ⟨rfl, rfl⟩ := Prod.mk.inj (Option.some.inj he)
    exact ⟨i, hi, hc, rfl⟩
  · rintro ⟨i, hi, hc, rfl⟩
    exact ⟨(i, la), hi, if_pos hc⟩

lemma reductions_pairwise (hw : G.WellFormed) (s : Nat) :
    ((ofGrammar G).reductions ((kernelLookaheads G).getD s [])).Pairwise (·.1 < ·.1) := by
  have hsorted := List.pairwise_map.mp (closure_kernel_sorted hw s)
  rw [reductions, List.pairwise_filterMap]
  refine hsorted.imp_of_mem ?_
  rintro ⟨i, la⟩ ⟨j, lb⟩ hi hj hb x hx y hy
  obtain ⟨hci, ⟨⟩⟩ := Option.ite_none_right_eq_some.mp hx
  obtain ⟨hcj, ⟨⟩⟩ := Option.ite_none_right_eq_some.mp hy
  rcases hb with hlt | ⟨he, hlt⟩
  · exact hlt
  · rw [complete_eq hw hi hci, complete_eq hw hj hcj, he] at hlt
    exact absurd hlt (lt_irrefl _)

lemma mem_closure_kernel (hw : G.WellFormed) {s : Nat} {i : Item} {la a : Nat}
    (h : (i, la) ∈ (ofGrammar G).closure ((kernelLookaheads G).getD s [])) :
    la.testBit a = true ↔ G.Looks (kernelSet G s) i a := by
  have hl : G.Looks (kernelSet G s) i a ↔
      (i, a) ∈ (ItemSet.ofLookaheads ((ofGrammar G).closure ((kernelLookaheads G).getD s []))).looks := by
    rw [closure_kernel_eq hw]
    rfl
  rw [hl]
  refine ⟨fun ha => ⟨la, h, ha⟩, ?_⟩
  rintro ⟨lb, hi, hb⟩
  have hnodup := (closure_kernel_sorted hw s).nodup
  have he : some la = some lb :=
    ((lookup_eq_some_iff_mem hnodup).mpr h).symm.trans ((lookup_eq_some_iff_mem hnodup).mpr hi)
  exact Option.some.inj he ▸ hb

end Reductions

/-- Lookaheads are exact: the closure of a kernel holds what the canonical sets of its state
hold together, and the reductions are their complete items. -/
theorem lookaheads_eq_union_canonical (hw : G.WellFormed) {s : Nat} (hs : s < G.collection.size) :
    let A := ofGrammar G
    let kernel := (A.lookaheads G.collection).kernels.getD s []
    let U := ItemSet.union (G.canonicalSets s)
    Sorted (A.closure kernel) ∧ ItemSet.ofLookaheads (A.closure kernel) = U ∧
      (A.reductions kernel).Pairwise (·.1 < ·.1) ∧
      (∀ r la, (r, la) ∈ A.reductions kernel ↔
        ∃ i ∈ U.items, i.isComplete G = true ∧ i.rule = r ∧ ∀ a, la.testBit a = true ↔ (i, a) ∈ U.looks) ∧
      ∀ p ∈ kernel, p.2.testBit A.placeholder = false := by
  intro A kernel U
  have hU : ItemSet.ofLookaheads (A.closure kernel) = U := closure_kernel_eq_union hw hs
  have hbits : ∀ i la, (i, la) ∈ A.closure kernel → ∀ a, la.testBit a = true ↔ (i, a) ∈ U.looks := by
    intro i la hi a
    have hC : ItemSet.ofLookaheads (A.closure kernel) = (kernelSet G s).closure G := closure_kernel_eq hw s
    rw [mem_closure_kernel hw hi, ← hU, hC]
    rfl
  refine ⟨closure_kernel_sorted hw s, hU, reductions_pairwise hw s, fun r la => ?_, fun p hp => ?_⟩
  · rw [mem_reductions]
    constructor
    · rintro ⟨i, hi, hc, rfl⟩
      exact ⟨i, hU ▸ ⟨la, hi⟩, hc, rfl, hbits i la hi⟩
    · rintro ⟨i, hi, hc, rfl, ha⟩
      obtain ⟨lb, hlb⟩ : ∃ lb, (i, lb) ∈ A.closure kernel := by rwa [← hU] at hi
      have he : lb = la := by
        apply Nat.eq_of_testBit_eq
        intro a
        rw [Bool.eq_iff_iff, ha a, hbits i lb hlb a]
      exact ⟨i, he ▸ hlb, hc, rfl⟩
  · exact Nat.testBit_lt_two_pow ((sized_kernelLookaheads hw).2 s p hp)

theorem lookaheads_eq_union_canonical_nullable :
    let G : NumberedGrammar := ⟨#[⟨0, [1]⟩, ⟨1, []⟩, ⟨1, [2, 1]⟩], 2, 4⟩
    ItemSet.ofLookaheads ((ofGrammar G).closure
      (((ofGrammar G).lookaheads G.collection).kernels.getD 0 [])) = .union (G.canonicalSets 0) := by
  intro G
  have hw : G.WellFormed := ⟨by decide, by decide, by decide, by decide⟩
  exact (lookaheads_eq_union_canonical hw (kernel_zero hw).1).2.1

end Analysis

end Ramify.LR
