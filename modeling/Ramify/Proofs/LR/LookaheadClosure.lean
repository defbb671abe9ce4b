import Ramify.Proofs.LR.Spread
import Ramify.Proofs.LR.StateGraph

namespace Ramify.LR

/-- Items, each with a set of lookaheads, which may be empty. -/
@[ext]
structure ItemSet where
  items : Set Item
  looks : Set (Item × Nat)

namespace NumberedGrammar

variable (G : NumberedGrammar)

inductive Looks (I : ItemSet) : Item → Nat → Prop
  | base {i : Item} {a : Nat} : (i, a) ∈ I.looks → Looks I i a
  | generated {i : Item} {n : Nat} {r : NumberedRule} {a : Nat} : G.Closure I.items i →
      G.rules[n]? = some r → i.next? G = some r.left → G.Begins (i.beyond G) a → Looks I ⟨n, 0⟩ a
  | passed {i : Item} {n : Nat} {r : NumberedRule} {a : Nat} : Looks I i a →
      G.rules[n]? = some r → i.next? G = some r.left → G.Derives (i.beyond G) [] → Looks I ⟨n, 0⟩ a

end NumberedGrammar

namespace ItemSet

def closure (G : NumberedGrammar) (I : ItemSet) : ItemSet :=
  ⟨{i | G.Closure I.items i}, {p | G.Looks I p.1 p.2}⟩

def ofLookaheads (K : Lookaheads) : ItemSet :=
  ⟨{i | ∃ la, (i, la) ∈ K}, {p | ∃ la, (p.1, la) ∈ K ∧ la.testBit p.2 = true}⟩

end ItemSet

namespace NumberedGrammar

variable {G : NumberedGrammar}

lemma right_symbols_lt (hin : G.InRange) (n : Nat) : ∀ s ∈ G.right n, s < G.symbolCount := by
  intro s hs
  rw [right] at hs
  cases hr : G.rules[n]? with
  | none => simp [hr] at hs
  | some r => exact hin.right_lt r (Array.mem_of_getElem? hr) s (by simpa [hr] using hs)

lemma beyond_lt (hin : G.InRange) (i : Item) : ∀ s ∈ i.beyond G, s < G.symbolCount :=
  fun s hs => right_symbols_lt hin i.rule s (List.mem_of_mem_drop hs)

lemma testBit_beyond_iff (hin : G.InRange) (i : Item) (la a : Nat) :
    (G.firstSets.ofSeq (i.beyond G) la).testBit a = true ↔
      G.Begins (i.beyond G) a ∨ G.Derives (i.beyond G) [] ∧ la.testBit a = true :=
  (firstSets_isExact hin).testBit_ofSeq_iff hin (beyond_lt hin i) la a

end NumberedGrammar

namespace Analysis

section Exact

variable {G : NumberedGrammar} {kernel : Lookaheads}

def Incoming (G : NumberedGrammar) (I : ItemSet) (s a : Nat) : Prop :=
  ∃ i, G.Closure I.items i ∧ i.next? G = some s ∧
    (G.Begins (i.beyond G) a ∨ G.Derives (i.beyond G) [] ∧ G.Looks I i a)

structure Justified (G : NumberedGrammar) (I : ItemSet) (spread : Spread) : Prop where
  present : ∀ s, (spread.getD s none).isSome = true → ∃ i, G.Closure I.items i ∧ i.next? G = some s
  holds : ∀ s a, Holds spread s a → Incoming G I s a

lemma Justified.addTo {I : ItemSet} {spread : Spread} (h : Justified G I spread) {i : Item} {s la : Nat}
    (hi : G.Closure I.items i) (hn : i.next? G = some s)
    (hla : ∀ a, la.testBit a = true → Incoming G I s a) : Justified G I (addTo spread s la) := by
  constructor
  · intro t ht
    rcases isSome_addTo.mp ht with ht | ⟨rfl, _⟩
    · exact h.present t ht
    · exact ⟨i, hi, hn⟩
  · intro t a ht
    rcases holds_addTo.mp ht with ht | ⟨rfl, _, ha⟩
    · exact h.holds t a ht
    · exact hla a ha

lemma incoming_of_ofSeq (hin : G.InRange) {I : ItemSet} {i : Item} {s la a : Nat}
    (hi : G.Closure I.items i) (hn : i.next? G = some s)
    (hla : ∀ a, la.testBit a = true → G.Looks I i a)
    (ha : (G.firstSets.ofSeq (i.beyond G) la).testBit a = true) : Incoming G I s a := by
  refine ⟨i, hi, hn, ?_⟩
  exact ((NumberedGrammar.testBit_beyond_iff hin i la a).mp ha).imp_right fun h => ⟨h.1, hla a h.2⟩

lemma directSpread_justified (hin : G.InRange) :
    Justified G (.ofLookaheads kernel) (directSpread G kernel) := by
  refine foldl_invariant (P := Justified G (.ofLookaheads kernel)) ?_ ?_
  · rintro acc hacc ⟨i, la⟩ hp
    dsimp only
    split
    · rename_i s hs
      split
      · have hi : G.Closure (ItemSet.ofLookaheads kernel).items i := .base ⟨la, hp⟩
        refine hacc.addTo hi hs fun a ha => incoming_of_ofSeq hin hi hs ?_ ha
        exact fun a ha => .base ⟨la, hp, ha⟩
      · exact hacc
    · exact hacc
  · exact ⟨fun s hs => by simp [Array.getD] at hs, fun s a ⟨la, hs, _⟩ => by simp [Array.getD] at hs⟩

lemma beyond_initial {n : Nat} {r : NumberedRule} (h : G.rules[n]? = some r) :
    (⟨n, 0⟩ : Item).beyond G = r.right.drop 1 := by
  rw [Item.beyond, NumberedGrammar.right_eq h]

lemma Incoming.looks {I : ItemSet} {n a : Nat} {r : NumberedRule} (h : Incoming G I r.left a)
    (hr : G.rules[n]? = some r) : G.Looks I ⟨n, 0⟩ a := by
  obtain ⟨i, hi, hn, hb | ⟨hd, hl⟩⟩ := h
  · exact .generated hi hr hn hb
  · exact .passed hl hr hn hd

lemma spreadStep_justified (hin : G.InRange) {I : ItemSet} {spread : Spread}
    (h : Justified G I spread) (s : Nat) : Justified G I (spreadStep G spread s) := by
  rw [spreadStep]
  split
  · exact h
  · rename_i la hla
    refine foldl_invariant (P := Justified G I) (fun acc hacc head hhead => ?_) h
    obtain ⟨_, r, hr, rfl, hhead'⟩ := mem_heads.mp hhead
    obtain ⟨n, hn⟩ := Array.mem_iff_getElem?.mp hr
    obtain ⟨i, hi, hnext⟩ := h.present r.left (by rw [hla]; rfl)
    obtain ⟨hsymbol, hpass⟩ := pass_of_head? hhead'
    have hinit : G.Closure I.items ⟨n, 0⟩ := .initial hi hn hnext
    have hnext' : (⟨n, 0⟩ : Item).next? G = some head.symbol := by
      rw [NumberedGrammar.next?_initial hn, hsymbol]
    have hlooks : ∀ a, la.testBit a = true → G.Looks I ⟨n, 0⟩ a :=
      fun a ha => (h.holds r.left a ⟨la, hla, ha⟩).looks hn
    refine hacc.addTo hinit hnext' fun a ha => incoming_of_ofSeq hin hinit hnext' hlooks ?_
    rwa [beyond_initial hn, ← hpass]

lemma spreadFrom_justified (hin : G.InRange) :
    Justified G (.ofLookaheads kernel) ((ofGrammar G).spreadFrom kernel) := by
  rw [spreadFrom_eq]
  refine saturate_invariant (fun spread hs => ?_) _ (directSpread_justified hin)
  rw [spreadSweep_eq]
  exact foldl_invariant (P := Justified G (.ofLookaheads kernel))
    (fun acc hacc s _ => spreadStep_justified hin hacc s) hs

def Notes (s la : Nat) (spread : Spread) : Prop :=
  (spread.getD s none).isSome = true ∧ ∀ a, la.testBit a = true → Holds spread s a

lemma Notes.addTo {s la : Nat} {spread : Spread} (h : Notes s la spread) (t lb : Nat) :
    Notes s la (addTo spread t lb) :=
  ⟨isSome_addTo.mpr (Or.inl h.1), fun a ha => holds_addTo.mpr (Or.inl (h.2 a ha))⟩

lemma notes_addTo {s : Nat} {spread : Spread} (hs : s < spread.size) (la : Nat) :
    Notes s la (addTo spread s la) :=
  ⟨isSome_addTo.mpr (Or.inr ⟨rfl, hs⟩), fun _ ha => holds_addTo.mpr (Or.inr ⟨rfl, hs, ha⟩)⟩

lemma Notes.spreadSweep {s la : Nat} {spread : Spread} (h : Notes s la spread) :
    Notes s la ((ofGrammar G).spreadSweep spread) := by
  rw [spreadSweep_eq]
  refine foldl_invariant (P := Notes s la) (fun acc hacc t _ => ?_) h
  rw [spreadStep]
  split
  · exact hacc
  · exact foldl_invariant (P := Notes s la) (fun acc hacc head _ => hacc.addTo _ _) hacc

lemma spreadFrom_notes_kernel {i : Item} {la s : Nat} (hi : (i, la) ∈ kernel)
    (hn : i.next? G = some s) (hs : s < G.nonterminals) :
    Notes s (G.firstSets.ofSeq (i.beyond G) la) ((ofGrammar G).spreadFrom kernel) := by
  rw [spreadFrom_eq]
  refine saturate_invariant (fun spread h => h.spreadSweep) _ ?_
  refine foldl_reaches (P := fun spread : Spread => spread.size = G.nonterminals)
    (fun acc hacc p hp => ?_) (fun acc hacc p hp => ?_) hi (fun acc hacc => ?_) (by simp)
  · dsimp only
    split
    · split
      · rw [addTo_size, hacc]
      · exact hacc
    · exact hacc
  · dsimp only
    split
    · split
      · exact hacc.addTo _ _
      · exact hacc
    · exact hacc
  · simp only [hn, hs, if_true]
    exact notes_addTo (hacc ▸ hs) _

lemma spreadFrom_notes_head (hk : KernelBounded G kernel) {r : NumberedRule} (hr : r ∈ G.rules)
    (hl : r.left < G.nonterminals) {la s : Nat}
    (hla : ((ofGrammar G).spreadFrom kernel).getD r.left none = some la) (hright : r.right[0]? = some s)
    (hs : s < G.nonterminals) :
    Notes s (G.firstSets.ofSeq (r.right.drop 1) la) ((ofGrammar G).spreadFrom kernel) := by
  have hb := spreadFrom_bounded hk
  have hf := spreadFrom_fixed hk
  rw [spreadSweep_eq] at hf
  have hstep := Grows.of_foldl_eq (fun a _ => spreadStep_grows (Nat.le_succ G.symbolCount) a) hb hf r.left
    (List.mem_range.mpr hl)
  rw [spreadStep, hla] at hstep
  obtain ⟨beyond, hright'⟩ : ∃ beyond, r.right = s :: beyond := by
    cases hr' : r.right with
    | nil => simp [hr'] at hright
    | cons t beyond => exact ⟨beyond, by simpa [hr'] using hright⟩
  have hhead : head? G G.firstSets r.right =
      some ⟨s, G.firstSets.ofSeq beyond 0, beyond.all G.firstSets.isNullable⟩ :=
    head?_eq_some.mpr ⟨s, beyond, hright', hs, rfl⟩
  have hadd := Grows.of_foldl_eq (fun h hh => addTo_grows G.nonterminals (G.symbolCount + 1) h.symbol
    (pass_lt hh (Nat.le_succ G.symbolCount) (hb.2 _ la hla))) hb hstep _ (mem_heads.mpr ⟨hl, r, hr, rfl, hhead⟩)
  have hnotes := notes_addTo (hb.1.symm ▸ hs) (G.firstSets.ofSeq (r.right.drop 1) la)
  rw [← (pass_of_head? hhead).2 la, hadd] at hnotes
  rwa [(pass_of_head? hhead).2 la] at hnotes

lemma spreadFrom_notes (hin : G.InRange) (hk : KernelBounded G kernel) {i : Item}
    (hi : G.Closure (ItemSet.ofLookaheads kernel).items i) {s : Nat} (hn : i.next? G = some s)
    (hs : s < G.nonterminals) :
    ∃ la, Notes s (G.firstSets.ofSeq (i.beyond G) la) ((ofGrammar G).spreadFrom kernel) := by
  induction hi generalizing s with
  | base hi =>
    obtain ⟨la, hi⟩ := hi
    exact ⟨la, spreadFrom_notes_kernel hi hn hs⟩
  | initial _ hr hn' ih =>
    have hmem := Array.mem_of_getElem? hr
    have hl := hin.left_lt _ hmem
    obtain ⟨_, hsome, _⟩ := ih hn' hl
    obtain ⟨la, hla⟩ := Option.isSome_iff_exists.mp hsome
    rw [NumberedGrammar.next?_initial hr] at hn
    exact ⟨la, beyond_initial hr ▸ spreadFrom_notes_head hk hmem hl hla hn hs⟩

lemma holds_of_begins (hin : G.InRange) (hk : KernelBounded G kernel) {i : Item}
    (hi : G.Closure (ItemSet.ofLookaheads kernel).items i) {s : Nat} (hn : i.next? G = some s)
    (hs : s < G.nonterminals) {a : Nat} (ha : G.Begins (i.beyond G) a) :
    Holds ((ofGrammar G).spreadFrom kernel) s a := by
  obtain ⟨la, _, hnotes⟩ := spreadFrom_notes hin hk hi hn hs
  exact hnotes a ((NumberedGrammar.testBit_beyond_iff hin i la a).mpr (Or.inl ha))

lemma holds_of_looks (hin : G.InRange) (hk : KernelBounded G kernel) {i : Item} {a : Nat}
    (h : G.Looks (.ofLookaheads kernel) i a) : (i, a) ∈ (ItemSet.ofLookaheads kernel).looks ∨
      ∃ n r, i = ⟨n, 0⟩ ∧ G.rules[n]? = some r ∧ Holds ((ofGrammar G).spreadFrom kernel) r.left a := by
  induction h with
  | base h => exact Or.inl h
  | generated hi hr hn hb =>
    exact Or.inr ⟨_, _, rfl, hr, holds_of_begins hin hk hi hn (hin.left_lt _ (Array.mem_of_getElem? hr)) hb⟩
  | @passed i n r a _ hr hn hd ih =>
    have hl := hin.left_lt _ (Array.mem_of_getElem? hr)
    have hbit : ∀ la, la.testBit a = true → (G.firstSets.ofSeq (i.beyond G) la).testBit a = true :=
      fun la hla => (NumberedGrammar.testBit_beyond_iff hin i la a).mpr (Or.inr ⟨hd, hla⟩)
    refine Or.inr ⟨n, r, rfl, hr, ?_⟩
    rcases ih with ⟨la, hi, hla⟩ | ⟨n', r', rfl, hr', la, hla, ha⟩
    · exact (spreadFrom_notes_kernel hi hn hl).2 a (hbit la hla)
    · have hmem := Array.mem_of_getElem? hr'
      rw [NumberedGrammar.next?_initial hr'] at hn
      refine (spreadFrom_notes_head hk hmem (hin.left_lt _ hmem) hla hn hl).2 a ?_
      exact beyond_initial hr' ▸ hbit la ha

def initialEntry (G : NumberedGrammar) (spread : Spread) (n : Nat) : Option (Item × Nat) :=
  match G.rules[n]? with
  | some r => (spread.getD r.left none).map fun la => (⟨n, 0⟩, la)
  | none => none

lemma initialLookaheads_eq (spread : Spread) : (ofGrammar G).initialLookaheads spread =
    (List.range G.rules.size).filterMap (initialEntry G spread) := rfl

lemma initialEntry_eq_some {spread : Spread} {n : Nat} {i : Item} {la : Nat} :
    initialEntry G spread n = some (i, la) ↔
      i = ⟨n, 0⟩ ∧ ∃ r, G.rules[n]? = some r ∧ spread.getD r.left none = some la := by
  rw [initialEntry]
  cases hr : G.rules[n]? with
  | none => simp
  | some r =>
    dsimp only
    rw [Option.map_eq_some_iff]
    simp only [Prod.mk.injEq, Option.some.injEq, exists_eq_left']
    constructor
    · rintro ⟨lb, hlb, rfl, rfl⟩
      exact ⟨rfl, hlb⟩
    · rintro ⟨rfl, hla⟩
      exact ⟨la, hla, rfl, rfl⟩

lemma mem_initialLookaheads {spread : Spread} {i : Item} {la : Nat} :
    (i, la) ∈ (ofGrammar G).initialLookaheads spread ↔
      i.dot = 0 ∧ ∃ r, G.rules[i.rule]? = some r ∧ spread.getD r.left none = some la := by
  rw [initialLookaheads_eq, List.mem_filterMap]
  constructor
  · rintro ⟨n, _, h⟩
    obtain ⟨rfl, hr⟩ := initialEntry_eq_some.mp h
    exact ⟨rfl, hr⟩
  · rintro ⟨hd, r, hr, hla⟩
    refine ⟨i.rule, List.mem_range.mpr (Array.getElem?_eq_some_iff.mp hr).1, ?_⟩
    exact initialEntry_eq_some.mpr ⟨by rw [← hd], r, hr, hla⟩

lemma exists_mem_cons {Q : Nat → Prop} (i j : Item) (lb : Nat) (K : Lookaheads) :
    (∃ la, (i, la) ∈ (j, lb) :: K ∧ Q la) ↔ i = j ∧ Q lb ∨ ∃ la, (i, la) ∈ K ∧ Q la := by
  simp only [List.mem_cons, Prod.mk.injEq, or_and_right, exists_or, and_assoc, exists_and_left,
    exists_eq_left]

lemma exists_mem_merge {Q : Nat → Prop} (hQ : ∀ la lb, Q (la ||| lb) ↔ Q la ∨ Q lb)
    (K L : Lookaheads) (i : Item) : (∃ la, (i, la) ∈ mergeLookaheads K L ∧ Q la) ↔
      (∃ la, (i, la) ∈ K ∧ Q la) ∨ ∃ la, (i, la) ∈ L ∧ Q la := by
  fun_induction mergeLookaheads K L with
  | case1 => simp
  | case2 => simp
  | case3 j la K k lb L _ ih => rw [exists_mem_cons, ih, exists_mem_cons i j, or_assoc]
  | case4 j la K k lb L h ih =>
    obtain rfl := Item.compare_eq_eq.mp h
    rw [exists_mem_cons, ih, exists_mem_cons, exists_mem_cons, hQ, and_or_left, or_or_or_comm]
  | case5 j la K k lb L _ ih => rw [exists_mem_cons, ih, exists_mem_cons i k, or_left_comm]

lemma mem_mergeLookaheads (K L : Lookaheads) (i : Item) :
    (∃ la, (i, la) ∈ mergeLookaheads K L) ↔ (∃ la, (i, la) ∈ K) ∨ ∃ la, (i, la) ∈ L := by
  simpa using exists_mem_merge (Q := fun _ => True) (by simp) K L i

lemma testBit_mergeLookaheads (K L : Lookaheads) (i : Item) (a : Nat) :
    (∃ la, (i, la) ∈ mergeLookaheads K L ∧ la.testBit a = true) ↔
      (∃ la, (i, la) ∈ K ∧ la.testBit a = true) ∨ ∃ la, (i, la) ∈ L ∧ la.testBit a = true :=
  exists_mem_merge (by simp) K L i

lemma closure_exact (hin : G.InRange) (hk : KernelBounded G kernel) :
    ItemSet.ofLookaheads ((ofGrammar G).closure kernel) = (ItemSet.ofLookaheads kernel).closure G := by
  have hj : Justified G (.ofLookaheads kernel) ((ofGrammar G).spreadFrom kernel) :=
    spreadFrom_justified hin
  apply ItemSet.ext
  · ext i
    refine (mem_mergeLookaheads _ _ i).trans ⟨?_, fun hi => ?_⟩
    · rintro (hi | ⟨la, hi⟩)
      · exact .base hi
      · obtain ⟨hd, r, hr, hla⟩ := mem_initialLookaheads.mp hi
        obtain ⟨j, hj, hn⟩ := hj.present r.left (by rw [hla]; rfl)
        have hh := NumberedGrammar.Closure.initial hj hr hn
        rwa [← hd] at hh
    · cases hi with
      | base hi => exact Or.inl hi
      | initial hi hr hn =>
        obtain ⟨_, hsome, _⟩ := spreadFrom_notes hin hk hi hn (hin.left_lt _ (Array.mem_of_getElem? hr))
        obtain ⟨la, hla⟩ := Option.isSome_iff_exists.mp hsome
        exact Or.inr ⟨la, mem_initialLookaheads.mpr ⟨rfl, _, hr, hla⟩⟩
  · ext ⟨i, a⟩
    refine (testBit_mergeLookaheads _ _ i a).trans ⟨?_, fun hi => ?_⟩
    · rintro (hi | ⟨la, hi, ha⟩)
      · exact .base hi
      · obtain ⟨hd, r, hr, hla⟩ := mem_initialLookaheads.mp hi
        have hh := (hj.holds r.left a ⟨la, hla, ha⟩).looks hr
        rwa [← hd] at hh
    · refine (holds_of_looks hin hk hi).imp_right ?_
      rintro ⟨n, r, rfl, hr, la, hla, ha⟩
      exact ⟨la, mem_initialLookaheads.mpr ⟨rfl, r, hr, hla⟩, ha⟩

end Exact

section Sorted

variable {G : NumberedGrammar}

def Sorted (K : Lookaheads) : Prop := (K.map Prod.fst).Pairwise Item.Before

lemma sorted_cons {p : Item × Nat} {K : Lookaheads} :
    Sorted (p :: K) ↔ (∀ i, (∃ la, (i, la) ∈ K) → p.1.Before i) ∧ Sorted K := by
  rw [Sorted, List.map_cons, List.pairwise_cons]
  simp [Sorted]

lemma before_of_compare_gt {i j : Item} (h : compare i j = .gt) : j.Before i := by
  rcases Item.before_trichotomy i j with hb | rfl | hb
  · rw [Item.compare_eq_lt.mpr hb] at h
    contradiction
  · rw [Item.compare_eq_eq.mpr rfl] at h
    contradiction
  · exact hb

lemma Sorted.mergeLookaheads {K L : Lookaheads} (hK : Sorted K) (hL : Sorted L) :
    Sorted (mergeLookaheads K L) := by
  fun_induction Analysis.mergeLookaheads K L with
  | case1 => exact hL
  | case2 => exact hK
  | case3 i la K j lb L h ih =>
    have hij := Item.compare_eq_lt.mp h
    obtain ⟨hi, hK'⟩ := sorted_cons.mp hK
    obtain ⟨hj, _⟩ := sorted_cons.mp hL
    refine sorted_cons.mpr ⟨fun k hk => ?_, ih hK' hL⟩
    rcases (mem_mergeLookaheads _ _ k).mp hk with hk | ⟨lc, hk⟩
    · exact hi k hk
    · rcases List.mem_cons.mp hk with he | hk
      · exact (Prod.mk.inj he).1 ▸ hij
      · exact IsTrans.trans _ _ _ hij (hj k ⟨lc, hk⟩)
  | case4 i la K j lb L h ih =>
    obtain rfl := Item.compare_eq_eq.mp h
    obtain ⟨hi, hK'⟩ := sorted_cons.mp hK
    obtain ⟨hj, hL'⟩ := sorted_cons.mp hL
    refine sorted_cons.mpr ⟨fun k hk => ?_, ih hK' hL'⟩
    exact ((mem_mergeLookaheads _ _ k).mp hk).elim (hi k) (hj k)
  | case5 i la K j lb L h ih =>
    have hji := before_of_compare_gt h
    obtain ⟨hi, _⟩ := sorted_cons.mp hK
    obtain ⟨hj, hL'⟩ := sorted_cons.mp hL
    refine sorted_cons.mpr ⟨fun k hk => ?_, ih hK hL'⟩
    rcases (mem_mergeLookaheads _ _ k).mp hk with ⟨lc, hk⟩ | hk
    · rcases List.mem_cons.mp hk with he | hk
      · exact (Prod.mk.inj he).1 ▸ hji
      · exact IsTrans.trans _ _ _ hji (hi k ⟨lc, hk⟩)
    · exact hj k hk

lemma sorted_initialLookaheads (spread : Spread) : Sorted ((ofGrammar G).initialLookaheads spread) := by
  rw [Sorted, initialLookaheads_eq, List.pairwise_map]
  refine List.Pairwise.filterMap _ (fun m n hmn p hp q hq => ?_) List.pairwise_lt_range
  rw [(initialEntry_eq_some.mp hp).1, (initialEntry_eq_some.mp hq).1]
  exact Or.inl hmn

lemma Sorted.closure {kernel : Lookaheads} (h : Sorted kernel) : Sorted ((ofGrammar G).closure kernel) :=
  h.mergeLookaheads (sorted_initialLookaheads _)

end Sorted

end Analysis

end Ramify.LR
