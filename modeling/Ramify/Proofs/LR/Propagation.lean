import Ramify.Proofs.LR.KernelRows
import Ramify.Proofs.LR.Placeholder

namespace Ramify.LR

namespace NumberedGrammar

variable (G : NumberedGrammar)

def Moves (site : Site) (i : Item) (target : Site) : Prop :=
  ∃ x, i.next? G = some x ∧ G.collection.goto? site.state x = some target.state ∧ target.item = i.advance

structure Propagates (U : Site → Nat → Prop) : Prop where
  start : U ⟨0, ⟨0, 0⟩⟩ G.endSymbol
  generated : ∀ s i t a, s.item ∈ G.collection.kernel s.state → G.Generates s.item i a →
    G.Moves s i t → U t a
  passed : ∀ s i t a, s.item ∈ G.collection.kernel s.state → U s a → G.Passes s.item i →
    G.Moves s i t → U t a

end NumberedGrammar

namespace Analysis

open NumberedGrammar

variable {G : NumberedGrammar}

lemma Moves.target_mem (hw : G.WellFormed) {s t : Site} {i : Item} (hi : i ∈ G.closure (G.collection.kernel s.state))
    (h : G.Moves s i t) : t.item ∈ G.collection.kernel t.state := by
  obtain ⟨x, hn, hg, he⟩ := h
  rw [(goto?_kernel hw hg).2, he]
  exact mem_movedOver.mpr ⟨i, hi, hn, rfl⟩

section Emissions

lemma mem_emissions {s t : Site} {la : Nat} {arrives : Bool} :
    (t, la, arrives) ∈ (ofGrammar G).emissions G.collection s ↔
      ∃ i lb, (i, lb) ∈ (ofGrammar G).closure [(s.item, 1 <<< G.symbolCount)] ∧ G.Moves s i t ∧
        arrives = lb.testBit G.symbolCount ∧
        la = if arrives then lb ^^^ 1 <<< G.symbolCount else lb := by
  obtain ⟨t, j⟩ := t
  simp only [emissions, List.mem_filterMap]
  constructor
  · rintro ⟨⟨i, lb⟩, hi, h⟩
    simp only [bind, Option.bind_eq_some_iff] at h
    obtain ⟨x, hn, t', hg, he⟩ := h
    obtain ⟨hsite, hrest⟩ := Prod.mk.inj (Option.some.inj he)
    obtain ⟨rfl, rfl⟩ := Prod.mk.inj hrest
    obtain ⟨rfl, rfl⟩ := Site.mk.inj hsite
    exact ⟨i, lb, hi, ⟨x, hn, hg, rfl⟩, rfl, rfl⟩
  · rintro ⟨i, lb, hi, ⟨x, hn, hg, hj⟩, rfl, rfl⟩
    refine ⟨(i, lb), hi, ?_⟩
    dsimp only at hj hg
    subst hj
    simp only [bind, Option.bind_eq_some_iff]
    exact ⟨x, hn, t, hg, rfl⟩

lemma single_eq (k : Item) (a : Nat) : ItemSet.ofLookaheads [(k, 1 <<< a)] = .single k a := by
  apply ItemSet.ext
  · ext i
    simp [ItemSet.ofLookaheads, ItemSet.single]
  · ext ⟨i, b⟩
    constructor
    · rintro ⟨la, hi, hb⟩
      obtain ⟨rfl, rfl⟩ := Prod.mk.inj (List.mem_singleton.mp hi)
      rw [Nat.one_shiftLeft, Nat.testBit_two_pow, decide_eq_true_eq] at hb
      exact hb ▸ rfl
    · intro hi
      obtain ⟨rfl, rfl⟩ := Prod.mk.inj hi
      exact ⟨1 <<< b, List.mem_singleton_self _, by rw [Nat.one_shiftLeft, Nat.testBit_two_pow_self]⟩

lemma closure_single (hw : G.WellFormed) (k i : Item) (a : Nat) :
    (∃ la, (i, la) ∈ (ofGrammar G).closure [(k, 1 <<< G.symbolCount)] ∧ la.testBit a = true) ↔
      G.Looks (.single k G.symbolCount) i a := by
  have hk : KernelBounded G [(k, 1 <<< G.symbolCount)] := by
    intro p hp
    rw [List.mem_singleton] at hp
    rw [hp, Nat.one_shiftLeft]
    exact Nat.pow_lt_pow_right (by omega) (by omega)
  have hh := congrArg ItemSet.looks (closure_exact hw.inRange hk)
  rw [single_eq] at hh
  exact Set.ext_iff.mp hh (i, a)

lemma testBit_without_placeholder (lb a : Nat) :
    (if lb.testBit G.symbolCount then lb ^^^ 1 <<< G.symbolCount else lb).testBit a = true ↔
      a ≠ G.symbolCount ∧ lb.testBit a = true := by
  split
  · rename_i hb
    rw [Nat.testBit_xor, Nat.one_shiftLeft, Nat.testBit_two_pow]
    rcases eq_or_ne a G.symbolCount with rfl | ha
    · simp [hb]
    · simp [ha, Ne.symm ha]
  · rename_i hb
    refine ⟨fun ha => ⟨?_, ha⟩, And.right⟩
    rintro rfl
    exact hb ha

lemma emissions_generated (hw : G.WellFormed) {s t : Site} {a : Nat} :
    (∃ la arrives, (t, la, arrives) ∈ (ofGrammar G).emissions G.collection s ∧ la.testBit a = true) ↔
      ∃ i, G.Generates s.item i a ∧ G.Moves s i t := by
  simp only [mem_emissions]
  constructor
  · rintro ⟨la, arrives, ⟨i, lb, hi, hm, rfl, rfl⟩, ha⟩
    obtain ⟨hne, ha⟩ := (testBit_without_placeholder lb a).mp ha
    exact ⟨i, ⟨hne, (closure_single hw _ i a).mp ⟨lb, hi, ha⟩⟩, hm⟩
  · rintro ⟨i, ⟨hne, hl⟩, hm⟩
    obtain ⟨lb, hi, ha⟩ := (closure_single hw _ i a).mpr hl
    exact ⟨_, _, ⟨i, lb, hi, hm, rfl, rfl⟩, (testBit_without_placeholder lb a).mpr ⟨hne, ha⟩⟩

lemma emissions_passed (hw : G.WellFormed) {s t : Site} :
    (∃ la, (t, la, true) ∈ (ofGrammar G).emissions G.collection s) ↔
      ∃ i, G.Passes s.item i ∧ G.Moves s i t := by
  simp only [mem_emissions]
  constructor
  · rintro ⟨la, i, lb, hi, hm, ha, _⟩
    exact ⟨i, (closure_single hw _ i _).mp ⟨lb, hi, ha.symm⟩, hm⟩
  · rintro ⟨i, hp, hm⟩
    obtain ⟨lb, hi, ha⟩ := (closure_single hw _ i _).mpr hp
    exact ⟨_, i, lb, hi, hm, ha.symm, rfl⟩

end Emissions

section Stages

variable (G)

abbrev Emitted := List (Site × List (Site × Nat × Bool))

def emitted : Emitted := (sites G.collection).map fun s => (s, (ofGrammar G).emissions G.collection s)

def addAll (K : KernelLookaheads) (es : List (Site × Nat × Bool)) : KernelLookaheads :=
  es.foldl (fun K (t, la, _) => if la = 0 then K else K.add t la) K

def emptyLookaheads : KernelLookaheads := G.collection.kernels.map (·.map (·, 0))

def startLookaheads : KernelLookaheads :=
  ((emitted G).foldl (fun K (_, es) => addAll K es) (emptyLookaheads G)).add ⟨0, ⟨0, 0⟩⟩
    (1 <<< G.endSymbol)

def links : List (Site × List Site) :=
  (emitted G).filterMap fun (s, es) =>
    let targets := es.filterMap fun (t, _, arrives) => if arrives then some t else none
    if targets.isEmpty then none else some (s, targets)

lemma settle_fst (links : List (Site × List Site)) (fuel : Nat) (K : KernelLookaheads) :
    (settle links fuel K).1 = saturate (propagate links) fuel K := by
  induction fuel generalizing K with
  | zero => rfl
  | succ fuel ih =>
    rw [settle, saturate]
    dsimp only
    split
    · rename_i he
      simp [he]
    · exact ih _

def kernelLookaheads : KernelLookaheads := ((ofGrammar G).lookaheads G.collection).kernels

lemma kernelLookaheads_eq : kernelLookaheads G =
    saturate (propagate (links G)) ((emitted G).length * (G.symbolCount + 1) + 1) (startLookaheads G) := by
  rw [← settle_fst, kernelLookaheads, lookaheads]
  rfl

variable {G}

lemma mem_emitted {s : Site} {es : List (Site × Nat × Bool)} : (s, es) ∈ emitted G ↔
    s.item ∈ G.collection.kernel s.state ∧ es = (ofGrammar G).emissions G.collection s := by
  have hsites : s ∈ sites G.collection ↔ s.item ∈ G.collection.kernel s.state := by
    simp only [sites, List.mem_flatMap, List.mem_range, List.mem_map]
    constructor
    · rintro ⟨n, _, i, hi, rfl⟩
      exact hi
    · intro hi
      refine ⟨s.state, ?_, s.item, hi, rfl⟩
      by_contra hlt
      have hnone : G.collection.kernels[s.state]? = none := Array.getElem?_eq_none (not_lt.mp hlt)
      simp [Collection.kernel, hnone] at hi
  rw [← hsites, emitted, List.mem_map]
  constructor
  · rintro ⟨s, hs, he⟩
    obtain ⟨rfl, rfl⟩ := Prod.mk.inj he
    exact ⟨hs, rfl⟩
  · rintro ⟨hs, rfl⟩
    exact ⟨s, hs, rfl⟩

lemma mem_links {s t : Site} : (∃ targets, (s, targets) ∈ links G ∧ t ∈ targets) ↔
    s.item ∈ G.collection.kernel s.state ∧
      ∃ la, (t, la, true) ∈ (ofGrammar G).emissions G.collection s := by
  have htargets : ∀ es : List (Site × Nat × Bool),
      t ∈ es.filterMap (fun (t, _, arrives) => if arrives then some t else none) ↔
        ∃ la, (t, la, true) ∈ es := by
    intro es
    rw [List.mem_filterMap]
    constructor
    · rintro ⟨⟨u, la, arrives⟩, hmem, hu⟩
      cases arrives with
      | false => exact absurd hu (by simp)
      | true => exact ⟨la, Option.some.inj hu ▸ hmem⟩
    · rintro ⟨la, hmem⟩
      exact ⟨(t, la, true), hmem, rfl⟩
  constructor
  · rintro ⟨targets, hl, ht⟩
    obtain ⟨⟨s', es⟩, he, hl⟩ := List.mem_filterMap.mp hl
    dsimp only at hl
    split at hl
    · exact absurd hl (by simp)
    · obtain ⟨rfl, rfl⟩ := Prod.mk.inj (Option.some.inj hl)
      obtain ⟨hs, rfl⟩ := mem_emitted.mp he
      exact ⟨hs, (htargets _).mp ht⟩
  · rintro ⟨hs, hes⟩
    have ht := (htargets _).mpr hes
    refine ⟨_, List.mem_filterMap.mpr ⟨_, mem_emitted.mpr ⟨hs, rfl⟩, ?_⟩, ht⟩
    dsimp only
    rw [if_neg]
    rw [List.isEmpty_iff]
    exact List.ne_nil_of_mem ht

end Stages

section Settled

def Sized (G : NumberedGrammar) (K : KernelLookaheads) : Prop :=
  K.Shape G.collection ∧ K.Bounded G.symbolCount

lemma emissions_lt (hw : G.WellFormed) {s t : Site} {la : Nat} {arrives : Bool}
    (h : (t, la, arrives) ∈ (ofGrammar G).emissions G.collection s) : la < 2 ^ G.symbolCount := by
  apply Nat.lt_pow_two_of_testBit
  intro a ha
  by_contra hb
  obtain ⟨i, hg, _⟩ := (emissions_generated hw).mp ⟨la, arrives, h, Bool.not_eq_false _ ▸ hb⟩
  exact absurd (hg.lt hw) (not_lt.mpr ha)

lemma endSymbol_lt (hw : G.WellFormed) : G.endSymbol < G.symbolCount := by
  have hlt := hw.nonterminals_lt
  rw [endSymbol]
  omega

lemma getD_emptyLookaheads (s : Nat) :
    (emptyLookaheads G).getD s [] = (G.collection.kernel s).map (·, 0) := by
  simp only [emptyLookaheads, Collection.kernel, Array.getD_eq_getD_getElem?, Array.getElem?_map]
  cases G.collection.kernels[s]? <;> rfl

lemma sized_empty : Sized G (emptyLookaheads G) := by
  refine ⟨⟨Array.size_map, fun s => ?_⟩, fun s p hp => ?_⟩
  · rw [getD_emptyLookaheads, List.map_map]
    exact List.map_id _
  · rw [getD_emptyLookaheads] at hp
    obtain ⟨i, _, rfl⟩ := List.mem_map.mp hp
    exact Nat.two_pow_pos _

lemma get_empty (s : Site) : (emptyLookaheads G).get s = 0 := by
  rw [KernelLookaheads.get, getD_emptyLookaheads]
  cases hl : ((G.collection.kernel s.state).map (·, 0)).lookup s.item with
  | none => rfl
  | some la =>
    obtain ⟨l₁, l₂, hrow, _⟩ := List.lookup_eq_some_iff.mp hl
    have hmem : (s.item, la) ∈ (G.collection.kernel s.state).map (·, 0) := by simp [hrow]
    obtain ⟨i, _, he⟩ := List.mem_map.mp hmem
    exact (Prod.mk.inj he).2.symm

lemma Sized.add {K : KernelLookaheads} (h : Sized G K) (t : Site) {la : Nat} (hla : la < 2 ^ G.symbolCount) :
    Sized G (K.add t la) :=
  ⟨h.1.add t la, h.2.add t hla⟩

lemma Sized.addAll (hw : G.WellFormed) {s : Site} {K : KernelLookaheads} (h : Sized G K) :
    Sized G (addAll K ((ofGrammar G).emissions G.collection s)) := by
  refine foldl_invariant (P := Sized G) (fun K hK e he => ?_) h
  obtain ⟨t, la, arrives⟩ := e
  dsimp only
  split
  · exact hK
  · exact hK.add t (emissions_lt hw he)

lemma sized_start (hw : G.WellFormed) : Sized G (startLookaheads G) := by
  refine Sized.add ?_ _ ?_
  · refine foldl_invariant (P := Sized G) (fun K hK e he => ?_) sized_empty
    obtain ⟨s, es⟩ := e
    obtain ⟨_, rfl⟩ := mem_emitted.mp he
    exact hK.addAll hw
  · rw [Nat.one_shiftLeft]
    exact Nat.pow_lt_pow_right (by omega) (endSymbol_lt hw)

def linkStep (K : KernelLookaheads) (link : Site × List Site) : KernelLookaheads :=
  link.2.foldl (fun K' t => K'.addNew t (K.get link.1)) K

lemma propagate_eq (links : List (Site × List Site)) : propagate links = fun K => links.foldl linkStep K := rfl

lemma linkStep_grows (link : Site × List Site) :
    Grows (Sized G) (weight (KernelLookaheads.rowWeight G.symbolCount)) (linkStep · link) := by
  have hinner : ∀ K, Sized G K → Grows (Sized G) (weight (KernelLookaheads.rowWeight G.symbolCount))
      fun K' => link.2.foldl (fun K' t => K'.addNew t (K.get link.1)) K' :=
    fun K hK => Grows.foldl fun t _ => KernelLookaheads.addNew_grows G.collection t (hK.2.get link.1)
  exact ⟨fun K hK => (hinner K hK).keeps K hK, fun K hK => (hinner K hK).grows K hK⟩

lemma propagate_grows : Grows (Sized G) (weight (KernelLookaheads.rowWeight G.symbolCount))
    (propagate (links G)) := by
  rw [propagate_eq]
  exact Grows.foldl fun link _ => linkStep_grows link

lemma length_emitted : (emitted G).length = weight List.length G.collection.kernels := by
  have hrows : G.collection.kernels.toList =
      (List.range G.collection.size).map fun s => G.collection.kernels.getD s [] := by
    apply List.ext_getElem
    · simp [Collection.size]
    · intro s hs _
      simp [Array.getD, Array.length_toList ▸ hs]
  rw [emitted, List.length_map, sites, List.length_flatMap, weight, hrows, List.map_map]
  simp [Function.comp_def]

lemma Sized.weight_le {K : KernelLookaheads} (h : Sized G K) :
    weight (KernelLookaheads.rowWeight G.symbolCount) K ≤ (emitted G).length * G.symbolCount := by
  have hkeys : K.toList.map (·.map Prod.fst) = G.collection.kernels.toList := by
    apply List.ext_getElem
    · simpa [Collection.size] using h.1.size_eq
    · intro s hs hs'
      have hk := h.1.keys s
      simp only [List.length_map, Array.length_toList] at hs hs'
      simpa [Collection.kernel, Array.getD, hs, hs'] using hk
  rw [length_emitted, weight, weight, ← hkeys, List.map_map, ← List.sum_map_mul_right]
  refine List.sum_le_sum fun row _ => ?_
  rw [Function.comp_apply, List.length_map]
  exact KernelLookaheads.rowWeight_le G.symbolCount row

lemma sized_kernelLookaheads (hw : G.WellFormed) : Sized G (kernelLookaheads G) := by
  rw [kernelLookaheads_eq]
  exact saturate_invariant propagate_grows.keeps _ (sized_start hw)

lemma kernelLookaheads_fixed (hw : G.WellFormed) :
    propagate (links G) (kernelLookaheads G) = kernelLookaheads G := by
  rw [kernelLookaheads_eq]
  refine saturate_fixed propagate_grows (fun K hK => hK.weight_le) (sized_start hw) ?_
  have hle : (emitted G).length * G.symbolCount ≤ (emitted G).length * (G.symbolCount + 1) :=
    Nat.mul_le_mul_left _ (by omega)
  omega

end Settled

section Least

def Within (G : NumberedGrammar) (U : Site → Nat → Prop) (K : KernelLookaheads) : Prop :=
  K.Shape G.collection ∧ ∀ t a, (K.get t).testBit a = true → U t a

lemma Within.add {U : Site → Nat → Prop} {K : KernelLookaheads} (h : Within G U K) {t : Site} {la : Nat}
    (hU : ∀ a, la.testBit a = true → U t a) : Within G U (K.add t la) := by
  refine ⟨h.1.add t la, fun t' a ha => ?_⟩
  rcases h.1.testBit_add.mp ha with ha | ⟨rfl, _, ha⟩
  · exact h.2 t' a ha
  · exact hU a ha

lemma within_start (hw : G.WellFormed) {U : Site → Nat → Prop} (hU : G.Propagates U) :
    Within G U (startLookaheads G) := by
  refine Within.add ?_ fun a ha => ?_
  · refine foldl_invariant (P := Within G U) (fun K hK e he => ?_)
      ⟨sized_empty.1, fun t a ha => by simp [get_empty] at ha⟩
    obtain ⟨s, es⟩ := e
    obtain ⟨hs, rfl⟩ := mem_emitted.mp he
    refine foldl_invariant (P := Within G U) (fun K hK e he => ?_) hK
    obtain ⟨t, la, arrives⟩ := e
    dsimp only
    split
    · exact hK
    · refine hK.add fun a ha => ?_
      obtain ⟨i, hg, hm⟩ := (emissions_generated hw).mp ⟨la, arrives, he, ha⟩
      exact hU.generated s i t a hs hg hm
  · rw [Nat.one_shiftLeft, Nat.testBit_two_pow, decide_eq_true_eq] at ha
    exact ha ▸ hU.start

lemma within_propagate (hw : G.WellFormed) {U : Site → Nat → Prop} (hU : G.Propagates U)
    {K : KernelLookaheads} (hK : Within G U K) : Within G U (propagate (links G) K) := by
  rw [propagate_eq]
  refine foldl_invariant (P := Within G U) (fun K hK link hl => ?_) hK
  obtain ⟨s, targets⟩ := link
  refine foldl_invariant (P := Within G U) (fun K' hK' t ht => ?_) hK
  rw [KernelLookaheads.addNew]
  split
  · exact hK'
  · obtain ⟨hs, hes⟩ := mem_links.mp ⟨targets, hl, ht⟩
    obtain ⟨i, hp, hm⟩ := (emissions_passed hw).mp hes
    exact hK'.add fun a ha => hU.passed s i t a hs (hK.2 s a ha) hp hm

lemma kernelLookaheads_least (hw : G.WellFormed) {U : Site → Nat → Prop} (hU : G.Propagates U) {t : Site}
    {a : Nat} (h : ((kernelLookaheads G).get t).testBit a = true) : U t a := by
  rw [kernelLookaheads_eq] at h
  exact (saturate_invariant (P := Within G U) (fun K => within_propagate hw hU) _
    (within_start hw hU)).2 t a h

end Least

section Complete

def Held (G : NumberedGrammar) (t : Site) (a : Nat) (K : KernelLookaheads) : Prop :=
  K.Shape G.collection ∧ (K.get t).testBit a = true

lemma Held.add {t : Site} {a : Nat} {K : KernelLookaheads} (h : Held G t a K) (s : Site) (la : Nat) :
    Held G t a (K.add s la) :=
  ⟨h.1.add s la, h.1.testBit_add.mpr (Or.inl h.2)⟩

lemma held_add {t : Site} {a la : Nat} {K : KernelLookaheads} (h : K.Shape G.collection)
    (ht : t.item ∈ G.collection.kernel t.state) (ha : la.testBit a = true) : Held G t a (K.add t la) :=
  ⟨h.add t la, h.testBit_add.mpr (Or.inr ⟨rfl, ht, ha⟩)⟩

lemma Held.addAll {t : Site} {a : Nat} {K : KernelLookaheads} (h : Held G t a K)
    (es : List (Site × Nat × Bool)) : Held G t a (addAll K es) := by
  refine foldl_invariant (P := Held G t a) (fun K hK e _ => ?_) h
  dsimp only
  split
  · exact hK
  · exact hK.add _ _

lemma shape_addAll {K : KernelLookaheads} (h : K.Shape G.collection) (es : List (Site × Nat × Bool)) :
    (addAll K es).Shape G.collection := by
  refine foldl_invariant (P := KernelLookaheads.Shape G.collection) (fun K hK e _ => ?_) h
  dsimp only
  split
  · exact hK
  · exact hK.add _ _

lemma held_addAll {t : Site} {a la : Nat} {arrives : Bool} {K : KernelLookaheads}
    (h : K.Shape G.collection) {es : List (Site × Nat × Bool)} (he : (t, la, arrives) ∈ es)
    (ht : t.item ∈ G.collection.kernel t.state) (ha : la.testBit a = true) : Held G t a (addAll K es) := by
  refine foldl_reaches (P := KernelLookaheads.Shape G.collection) (Q := Held G t a)
    (fun K hK e _ => shape_addAll hK [e]) (fun K hK e _ => hK.addAll [e]) he (fun K hK => ?_) h
  have hla : la ≠ 0 := by
    rintro rfl
    simp at ha
  have hone : addAll K [(t, la, arrives)] = K.add t la := if_neg hla
  exact hone ▸ held_add hK ht ha

lemma held_start_end (hw : G.WellFormed) : Held G ⟨0, ⟨0, 0⟩⟩ G.endSymbol (startLookaheads G) := by
  refine held_add ?_ ((kernel_zero hw).2 ▸ List.mem_singleton_self _) ?_
  · exact foldl_invariant (P := KernelLookaheads.Shape G.collection)
      (fun K hK e _ => shape_addAll hK e.2) sized_empty.1
  · rw [Nat.one_shiftLeft, Nat.testBit_two_pow_self]

lemma held_start {s t : Site} {a la : Nat} {arrives : Bool} (hs : s.item ∈ G.collection.kernel s.state)
    (he : (t, la, arrives) ∈ (ofGrammar G).emissions G.collection s)
    (ht : t.item ∈ G.collection.kernel t.state) (ha : la.testBit a = true) :
    Held G t a (startLookaheads G) := by
  refine Held.add ?_ _ _
  refine foldl_reaches (P := KernelLookaheads.Shape G.collection) (Q := Held G t a)
    (fun K hK e _ => shape_addAll hK e.2) (fun K hK e _ => hK.addAll e.2)
    (mem_emitted.mpr ⟨hs, rfl⟩) (fun K hK => ?_) sized_empty.1
  exact held_addAll hK he ht ha

lemma Held.propagate {t : Site} {a : Nat} {K : KernelLookaheads} (h : Held G t a K)
    (links : List (Site × List Site)) : Held G t a (propagate links K) := by
  rw [propagate_eq]
  refine foldl_invariant (P := Held G t a) (fun K hK link _ => ?_) h
  refine foldl_invariant (P := Held G t a) (fun K hK t' _ => ?_) hK
  rw [KernelLookaheads.addNew]
  split
  · exact hK
  · exact hK.add _ _

lemma Held.kernelLookaheads {t : Site} {a : Nat} (h : Held G t a (startLookaheads G)) :
    Held G t a (kernelLookaheads G) := by
  rw [kernelLookaheads_eq]
  exact saturate_invariant (P := Held G t a) (fun K hK => hK.propagate _) _ h

lemma kernelLookaheads_passed (hw : G.WellFormed) {s t : Site} {targets : List Site}
    (hl : (s, targets) ∈ links G) (ht : t ∈ targets) (hk : t.item ∈ G.collection.kernel t.state) {a : Nat}
    (ha : ((kernelLookaheads G).get s).testBit a = true) :
    ((kernelLookaheads G).get t).testBit a = true := by
  have hsized := sized_kernelLookaheads hw
  have hfix := kernelLookaheads_fixed hw
  generalize kernelLookaheads G = K at ha hsized hfix ⊢
  rw [propagate_eq] at hfix
  have hlink := Grows.of_foldl_eq (fun link _ => linkStep_grows link) hsized hfix _ hl
  have hnew := Grows.of_foldl_eq
    (fun t _ => KernelLookaheads.addNew_grows G.collection t (hsized.2.get s)) hsized hlink t ht
  rw [KernelLookaheads.addNew] at hnew
  split at hnew
  · rename_i hor
    rw [← hor, Nat.testBit_or, ha, Bool.or_true]
  · rw [← hnew]
    exact (held_add hsized.1 hk ha).2

lemma Looks.mem_closure {s : Site} (hw : G.WellFormed) (hs : s.item ∈ G.collection.kernel s.state) {i : Item}
    {a b : Nat} (h : G.Looks (.single s.item b) i a) : i ∈ G.closure (G.collection.kernel s.state) := by
  have hi : G.Closure {s.item} i := by
    refine Looks.closure (fun p hp => ?_) h
    obtain rfl := Set.mem_singleton_iff.mp hp
    rfl
  exact (NumberedGrammar.mem_closure hw).mpr (hi.mono (Set.singleton_subset_iff.mpr hs))

lemma kernelLookaheads_propagates (hw : G.WellFormed) :
    G.Propagates fun s a => ((kernelLookaheads G).get s).testBit a = true := by
  refine ⟨(held_start_end hw).kernelLookaheads.2, fun s i t a hs hg hm => ?_, fun s i t a hs ha hp hm => ?_⟩
  · have ht := Moves.target_mem hw (Looks.mem_closure hw hs hg.2) hm
    obtain ⟨la, arrives, he, ha⟩ := (emissions_generated hw).mpr ⟨i, hg, hm⟩
    exact (held_start hs he ht ha).kernelLookaheads.2
  · have ht := Moves.target_mem hw (Looks.mem_closure hw hs hp) hm
    have hes := (emissions_passed hw).mpr ⟨i, hp, hm⟩
    obtain ⟨targets, hl, ht'⟩ := mem_links.mpr ⟨hs, hes⟩
    exact kernelLookaheads_passed hw hl ht' ht ha

end Complete

end Analysis

end Ramify.LR
