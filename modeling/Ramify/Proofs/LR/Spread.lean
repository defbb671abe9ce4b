import Ramify.LR.Lookahead
import Ramify.Proofs.LR.FirstSets

namespace Ramify.LR

lemma FirstSets.ofSeq_eq (F : FirstSets) (seq : List Nat) (la : Nat) :
    F.ofSeq seq la =
      if seq.all F.isNullable then F.ofSeq seq 0 ||| la else F.ofSeq seq 0 := by
  apply Nat.eq_of_testBit_eq
  intro t
  rw [Bool.eq_iff_iff, testBit_ofSeq]
  split
  · rename_i hall
    rw [List.all_eq_true] at hall
    rw [Nat.testBit_or, Bool.or_eq_true, and_iff_right hall]
  · rename_i hall
    rw [List.all_eq_true] at hall
    simp [hall]

namespace Analysis

section Spread

def Holds (spread : Spread) (s a : Nat) : Prop :=
  ∃ la, spread.getD s none = some la ∧ la.testBit a = true

lemma addTo_getD (spread : Spread) (s la t : Nat) : (addTo spread s la).getD t none =
    if s = t ∧ t < spread.size then some ((spread.getD t none).getD 0 ||| la)
    else spread.getD t none := by
  rw [addTo]
  split
  · rename_i old hs
    split
    · rename_i hold
      split
      · rename_i hst
        rw [← hst.1, hs, Option.getD_some, hold]
      · rfl
    · rw [getD_setIfInBounds]
      grind
  · rename_i hs
    rw [getD_setIfInBounds]
    grind

lemma addTo_size (spread : Spread) (s la : Nat) : (addTo spread s la).size = spread.size := by
  rw [addTo]
  split
  · split <;> simp
  · simp

lemma isSome_addTo {spread : Spread} {s la t : Nat} : ((addTo spread s la).getD t none).isSome = true ↔
    (spread.getD t none).isSome = true ∨ s = t ∧ t < spread.size := by
  rw [addTo_getD]
  split <;> simp_all

lemma holds_addTo {spread : Spread} {s la t a : Nat} : Holds (addTo spread s la) t a ↔
    Holds spread t a ∨ s = t ∧ t < spread.size ∧ la.testBit a = true := by
  rw [Holds, Holds, addTo_getD]
  split
  · cases hs : spread.getD t none <;> simp_all [Nat.testBit_or]
  · grind

def SpreadBounded (n width : Nat) (spread : Spread) : Prop :=
  spread.size = n ∧ ∀ s la, spread.getD s none = some la → la < 2 ^ width

def entryWeight (width : Nat) : Option Nat → Nat
  | none => 0
  | some la => bitCount width la + 1

lemma addTo_grows (n width s : Nat) {la : Nat} (hla : la < 2 ^ width) :
    Grows (SpreadBounded n width) (weight (entryWeight width)) (addTo · s la) := by
  refine ⟨fun a ha => ⟨?_, fun t lb hb => ?_⟩, fun a ha => ?_⟩
  · rw [addTo_size, ha.1]
  · rw [addTo_getD] at hb
    split at hb
    · obtain rfl := Option.some.inj hb
      refine Nat.or_lt_two_pow ?_ hla
      cases ht : a.getD t none with
      | none => exact Nat.two_pow_pos _
      | some lb => exact ha.2 t lb ht
    · exact ha.2 t lb hb
  · by_cases hlt : s < a.size
    · unfold addTo
      split
      · rename_i old hs
        split
        · exact Or.inl rfl
        · rename_i hne
          refine Or.inr (weight_lt_of_set hlt ?_)
          rw [getElem_eq_getD hlt none, hs]
          exact Nat.add_lt_add_right (bitCount_lt_or (ha.2 s old hs) hla hne) 1
      · rename_i hs
        refine Or.inr (weight_lt_of_set hlt ?_)
        rw [getElem_eq_getD hlt none, hs]
        exact Nat.succ_pos _
    · left
      unfold addTo
      rw [Array.getD_eq_getD_getElem?, Array.getElem?_eq_none (by omega)]
      exact Array.setIfInBounds_eq_of_size_le (by omega)

end Spread

section Heads

def Head.pass (h : Head) (la : Nat) : Nat := if h.transparent then h.first ||| la else h.first

lemma head?_eq_some {G : NumberedGrammar} {F : FirstSets} {right : List Nat} {h : Head} :
    head? G F right = some h ↔ ∃ s beyond, right = s :: beyond ∧ s < G.nonterminals ∧
      h = ⟨s, F.ofSeq beyond 0, beyond.all F.isNullable⟩ := by
  cases right with
  | nil => simp [head?]
  | cons s beyond =>
    rw [head?]
    split
    · rename_i hs
      simp [hs, eq_comm]
    · rename_i hs
      simp [hs]

def headStep (G : NumberedGrammar) (acc : Array (List Head)) (r : NumberedRule) : Array (List Head) :=
  match head? G G.firstSets r.right with
  | some h => acc.modify r.left (h :: ·)
  | none => acc

lemma mem_headStep {G : NumberedGrammar} {acc : Array (List Head)} {r : NumberedRule} {a : Nat} {h : Head} :
    h ∈ (headStep G acc r).getD a [] ↔ h ∈ acc.getD a [] ∨
      a < acc.size ∧ r.left = a ∧ head? G G.firstSets r.right = some h := by
  rw [headStep]
  cases hr : head? G G.firstSets r.right with
  | none => simp
  | some h' =>
    simp only [Array.getD_eq_getD_getElem?, Array.getElem?_modify]
    by_cases hl : r.left = a
    · subst hl
      by_cases hlt : r.left < acc.size
      · simp [hlt, eq_comm, or_comm]
      · simp [hlt]
    · simp [hl]

lemma mem_heads {G : NumberedGrammar} {a : Nat} {h : Head} :
    h ∈ (ofGrammar G).heads.getD a [] ↔
      a < G.nonterminals ∧ ∃ r ∈ G.rules, r.left = a ∧ head? G G.firstSets r.right = some h := by
  have hfold : ∀ (rules : List NumberedRule) (acc : Array (List Head)),
      h ∈ (rules.foldl (headStep G) acc).getD a [] ↔ h ∈ acc.getD a [] ∨
        a < acc.size ∧ ∃ r ∈ rules, r.left = a ∧ head? G G.firstSets r.right = some h := by
    intro rules
    induction rules with
    | nil => simp
    | cons r rules ih =>
      intro acc
      have hsize : (headStep G acc r).size = acc.size := by
        rw [headStep]
        split <;> simp
      rw [List.foldl_cons, ih, mem_headStep, hsize]
      simp only [List.mem_cons, exists_eq_or_imp]
      tauto
  have heads_eq : (ofGrammar G).heads =
      G.rules.toList.foldl (headStep G) (Array.replicate G.nonterminals []) := by
    rw [Array.foldl_toList]
    rfl
  have hempty : (Array.replicate G.nonterminals ([] : List Head)).getD a [] = [] := by simp [Array.getD]
  rw [heads_eq, hfold, hempty]
  simp

end Heads

section Sweep

variable {G : NumberedGrammar}

def spreadStep (G : NumberedGrammar) (acc : Spread) (a : Nat) : Spread :=
  match acc.getD a none with
  | none => acc
  | some la => ((ofGrammar G).heads.getD a []).foldl (fun acc h => addTo acc h.symbol (Head.pass h la)) acc

lemma spreadSweep_eq : (ofGrammar G).spreadSweep =
    fun spread => (List.range G.nonterminals).foldl (spreadStep G) spread := rfl

lemma pass_lt {a : Nat} {h : Head} (hh : h ∈ (ofGrammar G).heads.getD a []) {width la : Nat}
    (hwidth : G.symbolCount ≤ width) (hla : la < 2 ^ width) : Head.pass h la < 2 ^ width := by
  obtain ⟨_, r, _, _, hr⟩ := mem_heads.mp hh
  obtain ⟨s, beyond, _, _, rfl⟩ := head?_eq_some.mp hr
  have hfirst : G.firstSets.ofSeq beyond 0 < 2 ^ width :=
    (FirstSets.ofSeq_lt _ NumberedGrammar.ofSymbol_lt beyond (Nat.two_pow_pos _)).trans_le
      (Nat.pow_le_pow_right (by omega) hwidth)
  rw [Head.pass]
  split
  · exact Nat.or_lt_two_pow hfirst hla
  · exact hfirst

lemma spreadStep_grows {n width : Nat} (hwidth : G.symbolCount ≤ width) (a : Nat) :
    Grows (SpreadBounded n width) (weight (entryWeight width)) (spreadStep G · a) := by
  have hinner : ∀ la, la < 2 ^ width → Grows (SpreadBounded n width) (weight (entryWeight width))
      fun acc => ((ofGrammar G).heads.getD a []).foldl (fun acc h => addTo acc h.symbol (Head.pass h la)) acc :=
    fun la hla => Grows.foldl fun h hh => addTo_grows n width h.symbol (pass_lt hh hwidth hla)
  refine ⟨fun acc hacc => ?_, fun acc hacc => ?_⟩
  · unfold spreadStep
    split
    · exact hacc
    · rename_i la hla
      exact (hinner la (hacc.2 a la hla)).keeps acc hacc
  · unfold spreadStep
    split
    · exact Or.inl rfl
    · rename_i la hla
      exact (hinner la (hacc.2 a la hla)).grows acc hacc

lemma pass_of_head? {r : NumberedRule} {h : Head} (hr : head? G G.firstSets r.right = some h) :
    r.right[0]? = some h.symbol ∧ ∀ la, Head.pass h la = G.firstSets.ofSeq (r.right.drop 1) la := by
  obtain ⟨s, beyond, hright, _, rfl⟩ := head?_eq_some.mp hr
  refine ⟨by simp [hright], fun la => ?_⟩
  rw [hright, List.drop_one, List.tail_cons]
  exact (FirstSets.ofSeq_eq _ beyond la).symm

def directSpread (G : NumberedGrammar) (kernel : Lookaheads) : Spread :=
  kernel.foldl (fun acc (i, la) =>
    match i.next? G with
    | some s => if s < G.nonterminals then addTo acc s (G.firstSets.ofSeq (i.beyond G) la) else acc
    | none => acc) (Array.replicate G.nonterminals none)

lemma spreadFrom_eq (kernel : Lookaheads) : (ofGrammar G).spreadFrom kernel =
    saturate (ofGrammar G).spreadSweep (G.nonterminals * (G.symbolCount + 2) + 1) (directSpread G kernel) :=
  rfl

lemma spreadSweep_grows {n width : Nat} (hwidth : G.symbolCount ≤ width) :
    Grows (SpreadBounded n width) (weight (entryWeight width)) (ofGrammar G).spreadSweep := by
  rw [spreadSweep_eq]
  exact Grows.foldl fun a _ => spreadStep_grows hwidth a

def KernelBounded (G : NumberedGrammar) (kernel : Lookaheads) : Prop :=
  ∀ p ∈ kernel, p.2 < 2 ^ (G.symbolCount + 1)

lemma ofSeq_lt_placeholder (seq : List Nat) {la : Nat} (hla : la < 2 ^ (G.symbolCount + 1)) :
    G.firstSets.ofSeq seq la < 2 ^ (G.symbolCount + 1) :=
  FirstSets.ofSeq_lt _ (fun s => (NumberedGrammar.ofSymbol_lt s).trans
    (Nat.pow_lt_pow_right (by omega) (by omega))) seq hla

variable {kernel : Lookaheads}

lemma directSpread_bounded (hk : KernelBounded G kernel) :
    SpreadBounded G.nonterminals (G.symbolCount + 1) (directSpread G kernel) := by
  refine foldl_invariant (P := SpreadBounded G.nonterminals (G.symbolCount + 1)) ?_ ?_
  · rintro acc hacc ⟨i, la⟩ hp
    dsimp only
    split
    · split
      · exact (addTo_grows _ _ _ (ofSeq_lt_placeholder _ (hk _ hp))).keeps acc hacc
      · exact hacc
    · exact hacc
  · exact ⟨by simp, fun s la hs => by simp [Array.getD] at hs⟩

lemma spreadFrom_bounded (hk : KernelBounded G kernel) :
    SpreadBounded G.nonterminals (G.symbolCount + 1) ((ofGrammar G).spreadFrom kernel) := by
  rw [spreadFrom_eq]
  exact saturate_invariant (spreadSweep_grows (by omega)).keeps _ (directSpread_bounded hk)

lemma entryWeight_le (width : Nat) (e : Option Nat) : entryWeight width e ≤ width + 1 := by
  cases e with
  | none => exact Nat.zero_le _
  | some la => exact Nat.add_le_add_right (bitCount_le width la) 1

lemma spreadFrom_fixed (hk : KernelBounded G kernel) :
    (ofGrammar G).spreadSweep ((ofGrammar G).spreadFrom kernel) = (ofGrammar G).spreadFrom kernel := by
  rw [spreadFrom_eq]
  refine saturate_fixed (spreadSweep_grows (Nat.le_succ G.symbolCount)) (fun spread hs => ?_)
    (directSpread_bounded hk) (by omega : G.nonterminals * (G.symbolCount + 2) < _)
  have hh := weight_le (a := spread) fun e _ => entryWeight_le (G.symbolCount + 1) e
  rwa [hs.1] at hh

end Sweep

end Analysis

end Ramify.LR
