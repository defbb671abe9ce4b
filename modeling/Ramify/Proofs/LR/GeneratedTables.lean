import Ramify.Proofs.LR.ShiftPreference
import Ramify.Proofs.Table.Validation

/-! What holds of every generated table. All numbers that the construction meets are in range,
and each symbol leads to one state; so a cell holds one shift at most. The rows of the table
are sorted, and the conflicts that are reported are the cells with several actions. -/

namespace Ramify

namespace Action

def Before : Action → Action → Prop
  | shift s, shift u => s < u
  | shift _, _ => True
  | reduce p, reduce q => p < q
  | reduce _, accept => True
  | _, _ => False

end Action

structure Table.Ordered (T : Table) : Prop where
  actions_sorted : ∀ row ∈ T.actions, Table.Sorted row
  gotos_sorted : ∀ row ∈ T.gotos, Table.Sorted row
  cell_ne_nil : ∀ row ∈ T.actions, ∀ c ∈ row, c.2 ≠ []
  cell_sorted : ∀ row ∈ T.actions, ∀ c ∈ row, c.2.Pairwise Action.Before
  cell_shift : ∀ row ∈ T.actions, ∀ c ∈ row, ∀ s u, .shift s ∈ c.2 → .shift u ∈ c.2 → s = u

namespace LR

section Actions

variable {G : NumberedGrammar} {transitions reductions : List (Nat × Nat)} {t : Nat}

lemma actionsFor_pairwise (h : reductions.Pairwise (·.1 < ·.1)) :
    (actionsFor G transitions reductions t).Pairwise Action.Before := by
  have hreductions : ((reductions.filter fun p => p.2.testBit (G.nonterminals + t)).filter (·.1 != 0)).Pairwise
      (·.1 < ·.1) := (h.filter _).filter _
  simp only [actionsFor]
  refine List.pairwise_append.mpr ⟨List.pairwise_append.mpr ⟨?_, ?_, ?_⟩, ?_, ?_⟩
  · cases transitions.lookup (G.nonterminals + t) <;> simp
  · exact List.pairwise_map.mpr hreductions
  · intro a ha b hb
    obtain ⟨_, _, rfl⟩ := List.mem_map.mp ha
    obtain ⟨_, _, rfl⟩ := List.mem_map.mp hb
    trivial
  · split <;> simp
  · intro a ha b hb
    split at hb
    · obtain rfl := List.mem_singleton.mp hb
      rcases List.mem_append.mp ha with ha | ha <;>
      · obtain ⟨_, _, rfl⟩ := List.mem_map.mp ha
        trivial
    · cases hb

lemma shifts_length_le : ((actionsFor G transitions reductions t).filter Action.isShift).length ≤ 1 := by
  have hreduce : ∀ l : List (Nat × Nat), (l.map fun p => Action.reduce p.1).filter Action.isShift = [] :=
    fun l => List.filter_eq_nil_iff.mpr fun a ha => by
      obtain ⟨_, _, rfl⟩ := List.mem_map.mp ha
      exact Bool.false_ne_true
  have haccept : ∀ c : Bool, (if c then [Action.accept] else []).filter Action.isShift = [] :=
    fun c => by cases c <;> rfl
  simp only [actionsFor]
  rw [List.filter_append, List.filter_append, hreduce, List.append_nil]
  refine (List.length_append.trans_le ?_)
  rw [haccept, List.length_nil, Nat.add_zero]
  refine (List.length_filter_le _ _).trans ?_
  cases transitions.lookup (G.nonterminals + t) <;> simp

end Actions

namespace Cell

variable {state t : Nat} {prefersShift : Bool} {actions : List Action}

lemma ofActions_ne_nil (h : actions ≠ []) : (ofActions state t prefersShift actions).actions ≠ [] := by
  rw [ofActions]
  split
  · exact h
  · dsimp only
    split
    · rename_i hcond
      obtain ⟨a, ha, hshift⟩ := List.any_eq_true.mp (Bool.and_eq_true_iff.mp hcond).1
      exact List.ne_nil_of_mem (List.mem_filter.mpr ⟨ha, hshift⟩)
    · exact h

lemma any_isShift_iff {l : List Action} : l.any Action.isShift = true ↔ ∃ s, .shift s ∈ l := by
  rw [List.any_eq_true]
  constructor
  · rintro ⟨a, ha, hshift⟩
    cases a with
    | shift s => exact ⟨s, ha⟩
    | reduce => cases hshift
    | accept => cases hshift
  · rintro ⟨s, hs⟩
    exact ⟨_, hs, rfl⟩

lemma ofActions_conflict_spec {c : Conflict} (h : (ofActions state t prefersShift actions).conflict = some c) :
    1 < actions.length ∧ state = c.state ∧ t = c.terminal ∧ c.actions = actions ∧
      (c.kind = .shiftReduce ↔ ∃ s, .shift s ∈ actions) ∧
      (c.resolution = .preferShift ↔ (∃ s, .shift s ∈ actions) ∧ prefersShift = true) := by
  rw [ofActions] at h
  split at h
  · cases h
  · rename_i hlen
    obtain rfl := Option.some.inj h
    refine ⟨Nat.not_le.mp hlen, rfl, rfl, rfl, ?_, ?_⟩
    · rw [← any_isShift_iff]
      dsimp only
      split
      · exact iff_of_true rfl ‹_›
      · exact iff_of_false (by decide) ‹_›
    · rw [← any_isShift_iff, ← Bool.and_eq_true]
      dsimp only
      split
      · exact iff_of_true rfl ‹_›
      · exact iff_of_false (by decide) ‹_›

lemma exists_conflict (state t : Nat) (prefersShift : Bool) (h : 1 < actions.length) :
    ∃ c, (ofActions state t prefersShift actions).conflict = some c := by
  rw [ofActions, if_neg (Nat.not_le.mpr h)]
  exact ⟨_, rfl⟩

lemma mem_ofActions_iff {a : Action} : a ∈ (ofActions state t prefersShift actions).actions ↔ a ∈ actions ∧
    ((∃ c, (ofActions state t prefersShift actions).conflict = some c ∧ c.resolution = .preferShift) →
      a.isShift = true) := by
  rw [ofActions]
  split
  · refine (and_iff_left ?_).symm
    rintro ⟨c, hc, _⟩
    cases hc
  · dsimp only
    split
    · rw [List.mem_filter]
      exact and_congr_right' ⟨fun h _ => h, fun h => h ⟨_, rfl, rfl⟩⟩
    · refine (and_iff_left ?_).symm
      rintro ⟨c, hc, hp⟩
      rw [← Option.some.inj hc] at hp
      cases hp

lemma ofActions_kept (h : (actions.filter Action.isShift).length ≤ 1) :
    1 < (ofActions state t prefersShift actions).actions.length ↔
      ∃ c, (ofActions state t prefersShift actions).conflict = some c ∧ c.resolution = .kept := by
  rw [ofActions]
  split
  · rename_i hlen
    refine iff_of_false (Nat.not_lt.mpr hlen) ?_
    rintro ⟨c, hc, _⟩
    cases hc
  · rename_i hlen
    dsimp only
    split
    · refine iff_of_false (Nat.not_lt.mpr h) ?_
      rintro ⟨c, hc, hk⟩
      rw [← Option.some.inj hc] at hk
      cases hk
    · exact iff_of_true (Nat.not_le.mp hlen) ⟨_, rfl, rfl⟩

end Cell

lemma cellsOf_spec {G : NumberedGrammar} {prefers : List Nat} {s : Nat} {transitions reductions : List (Nat × Nat)}
    {c : Cell} (h : c ∈ cellsOf G prefers s transitions reductions) : c.terminal < G.terminals ∧ c.actions ≠ [] ∧
      c.actions.Sublist (actionsFor G transitions reductions c.terminal) ∧
      (1 < c.actions.length ↔ ∃ d, c.conflict = some d ∧ d.resolution = .kept) := by
  rw [cellsOf_eq] at h
  obtain ⟨t, ht, hcell⟩ := List.mem_filterMap.mp h
  obtain ⟨hne, rfl⟩ := cellOf_eq_some.mp hcell
  rw [Cell.ofActions_terminal]
  exact ⟨List.mem_range.mp ht, Cell.ofActions_ne_nil hne, Cell.ofActions_sublist, Cell.ofActions_kept shifts_length_le⟩

namespace NumberedGrammar

variable (G : NumberedGrammar)

def IsTerminal (x : Nat) : Prop := G.nonterminals ≤ x ∧ x < G.symbolCount

variable {G}

lemma Generates.le {k i : Item} {a : Nat} (h : G.Generates k i a) : G.nonterminals ≤ a := by
  obtain ⟨hne, hl⟩ := h
  induction hl with
  | base h => exact absurd (Prod.mk.inj h).2 hne
  | generated _ _ _ hb => exact hb.1
  | passed _ _ _ _ ih => exact ih hne

lemma looks_le (hw : G.WellFormed) {s a : Nat} {i : Item} (h : G.Looks (Analysis.kernelSet G s) i a) :
    G.nonterminals ≤ a := by
  have hpropagates : G.Propagates fun _ a => G.nonterminals ≤ a :=
    ⟨Nat.le_sub_one_of_lt hw.nonterminals_lt, fun _ _ _ _ _ hg _ => hg.le, fun _ _ _ _ _ ha _ _ => ha⟩
  induction h with
  | base hi => exact Analysis.kernelLookaheads_least hw hpropagates ((Analysis.mem_kernelSet_looks hw).mp hi)
  | generated _ _ _ hb => exact hb.1
  | passed _ _ _ _ ih => exact ih

lemma looks_isTerminal (hw : G.WellFormed) {s a : Nat} {i : Item} (h : G.Looks (Analysis.kernelSet G s) i a) :
    G.IsTerminal a := ⟨looks_le hw h, looks_lt hw h⟩

lemma first_isTerminal {x a : Nat} (ha : (G.firstSets.ofSymbol x).testBit a = true) : G.IsTerminal a := by
  refine ⟨(firstSets_sound.first x a ha).1, ?_⟩
  by_contra hge
  rw [Nat.testBit_lt_two_pow ((ofSymbol_lt x).trans_le (Nat.pow_le_pow_right Nat.two_pos (Nat.not_lt.mp hge)))] at ha
  cases ha

lemma transition_lt (hw : G.WellFormed) {s x u : Nat} (h : (x, u) ∈ G.collection.transitions.getD s []) :
    x < G.symbolCount ∧ u < G.collection.size := by
  have hgoto : G.collection.goto? s x = some u :=
    (lookup_eq_some_iff_mem (nodup_keys (row_pairwise hw s))).mpr h
  obtain ⟨i, _, hn⟩ := exists_item_of_goto? hw hgoto
  exact ⟨right_symbols_lt hw.inRange i.rule x (List.mem_of_getElem? hn), (goto?_kernel hw hgoto).1⟩

end NumberedGrammar

namespace Construction

structure InBounds (K : Construction) : Prop where
  item_valid : ∀ s, ∀ i ∈ K.numbered.closure (K.collection.kernel s), i.Valid K.numbered
  rows : K.collection.transitions.size = K.collection.size
  row_sorted : ∀ s, (K.collection.transitions.getD s []).Pairwise (·.1 < ·.1)
  transition_lt : ∀ s, ∀ p ∈ K.collection.transitions.getD s [],
    p.1 < K.numbered.symbolCount ∧ p.2 < K.collection.size
  first : ∀ x a, (K.analysis.firstSets.ofSymbol x).testBit a = true → K.numbered.IsTerminal a
  kernels : K.lookaheads.kernels.Shape K.collection
  kernel_looks : ∀ s, ∀ p ∈ K.lookaheads.kernels.getD s [], ∀ a, p.2.testBit a = true → K.numbered.IsTerminal a
  reduction : ∀ s, ∀ p ∈ K.analysis.reductions (K.lookaheads.kernels.getD s []),
    p.1 < K.grammar.productions.size ∧ ∀ a, p.2.testBit a = true → K.numbered.IsTerminal a
  conflict_lt : ∀ c ∈ K.conflicts, c.state < K.collection.size ∧ c.terminal < K.grammar.terminals.size

inductive Proposes (K : Construction) (s t : Nat) : Action → Prop
  | shift {u : Nat} : K.collection.goto? s (K.numbered.nonterminals + t) = some u → Proposes K s t (.shift u)
  | reduce {r la : Nat} : (r, la) ∈ K.analysis.reductions (K.lookaheads.kernels.getD s []) → r ≠ 0 →
      la.testBit (K.numbered.nonterminals + t) = true → Proposes K s t (.reduce r)
  | accept {la : Nat} : (0, la) ∈ K.analysis.reductions (K.lookaheads.kernels.getD s []) →
      t = K.grammar.endTerminal → la.testBit K.numbered.endSymbol = true → Proposes K s t .accept

/-- The conflicts are the cells for which several actions are proposed, with these actions. -/
structure ReportsConflicts (K : Construction) (prefers : List String) : Prop where
  sorted : K.conflicts.Pairwise fun c d => c.state < d.state ∨ c.state = d.state ∧ c.terminal < d.terminal
  several : ∀ s t, (∃ c ∈ K.conflicts, c.state = s ∧ c.terminal = t) ↔
    ∃ a b, a ≠ b ∧ K.Proposes s t a ∧ K.Proposes s t b
  actions : ∀ c ∈ K.conflicts, c.actions.Pairwise Action.Before ∧
    ∀ a, a ∈ c.actions ↔ K.Proposes c.state c.terminal a
  kind : ∀ c ∈ K.conflicts, c.kind = .shiftReduce ↔ ∃ s, .shift s ∈ c.actions
  resolution : ∀ c ∈ K.conflicts, c.resolution = .preferShift ↔
    (∃ s, .shift s ∈ c.actions) ∧ ∃ name ∈ prefers, K.table.terminals[c.terminal]? = some name
  actionsAt : ∀ s t a, a ∈ K.table.actionsAt s t ↔ K.Proposes s t a ∧
    ((∃ c ∈ K.conflicts, c.state = s ∧ c.terminal = t ∧ c.resolution = .preferShift) → a.isShift = true)
  conflictCount : K.table.conflictCount = (K.conflicts.filter fun c => c.resolution = .kept).length

variable {prefers : List String} {g : Grammar} {s t : Nat} {a : Action}

variable (prefers) in
lemma mem_allActions_iff (hg : g.WellNumbered) : a ∈ allActions g s t ↔ (ofGrammar prefers g).Proposes s t a := by
  have hpos := hg.terminals_pos
  have hend : (NumberedGrammar.ofGrammar g).nonterminals + t = (NumberedGrammar.ofGrammar g).endSymbol ↔
      t = g.endTerminal := by
    simp only [NumberedGrammar.ofGrammar, NumberedGrammar.endSymbol, Grammar.endTerminal]
    omega
  constructor
  · intro h
    cases a with
    | shift u => exact .shift (shift_mem_allActions.mp h)
    | reduce r =>
      obtain ⟨hne, la, hmem, hla⟩ := reduce_mem_actionsFor.mp h
      exact .reduce hmem hne hla
    | accept =>
      obtain ⟨he, la, hmem, hla⟩ := accept_mem_actionsFor.mp h
      exact .accept hmem (hend.mp he) hla
  · intro h
    cases h with
    | shift hu => exact shift_mem_allActions.mpr hu
    | reduce hmem hne hla => exact reduce_mem_actionsFor.mpr ⟨hne, _, hmem, hla⟩
    | accept hmem he hla => exact accept_mem_actionsFor.mpr ⟨hend.mpr he, _, hmem, hla⟩

lemma mem_tableRow {row : Array (Nat × List Action)} (hrow : row ∈ (ofGrammar prefers g).table.actions) :
    Table.Sorted row ∧ ∀ c ∈ row, c.1 < g.terminals.size ∧ c.2 ≠ [] ∧ ∃ s t, c.2.Sublist (allActions g s t) := by
  obtain ⟨cells, hcells, rfl⟩ := Array.mem_map.mp hrow
  obtain ⟨s, _, rfl⟩ := Array.mem_map.mp hcells
  refine ⟨cellsOf_sorted, fun c hc => ?_⟩
  rw [List.mem_toArray, List.mem_map] at hc
  obtain ⟨cell, hcell, rfl⟩ := hc
  obtain ⟨hlt, hne, hsublist, _⟩ := cellsOf_spec hcell
  exact ⟨hlt.trans_eq (Nat.add_sub_cancel_left _ _), hne, s, cell.terminal, hsublist⟩

lemma cellAt_conflict_spec {c : Conflict} (h : (cellAt prefers g s t).conflict = some c) :
    1 < (allActions g s t).length ∧ s = c.state ∧ t = c.terminal ∧ c.actions = allActions g s t ∧
      (c.kind = .shiftReduce ↔ ∃ u, .shift u ∈ allActions g s t) ∧
      (c.resolution = .preferShift ↔ (∃ u, .shift u ∈ allActions g s t) ∧ t ∈ preferred prefers g) := by
  rw [← List.contains_iff_mem]
  exact Cell.ofActions_conflict_spec h

variable (prefers g) in
lemma conflicts_eq : (ofGrammar prefers g).conflicts =
    (List.range (NumberedGrammar.ofGrammar g).collection.size).flatMap fun s =>
      (List.range g.terminals.size).filterMap fun t => (cellAt prefers g s t).conflict := by
  have hterminals : (NumberedGrammar.ofGrammar g).terminals = g.terminals.size := Nat.add_sub_cancel_left _ _
  have hcells : (ofGrammar prefers g).cells.toList = (List.range (NumberedGrammar.ofGrammar g).collection.size).map
      fun s => cellsOf (NumberedGrammar.ofGrammar g) (preferred prefers g) s
        ((NumberedGrammar.ofGrammar g).collection.transitions.getD s [])
        ((Analysis.ofGrammar (NumberedGrammar.ofGrammar g)).reductions
          ((Analysis.kernelLookaheads (NumberedGrammar.ofGrammar g)).getD s [])) := by
    rw [← Array.toList_range, ← Array.toList_map]
    rfl
  rw [conflicts, hcells, List.filterMap_flatten, List.map_map, ← List.flatMap_def, ← hterminals]
  refine List.flatMap_congr fun s _ => ?_
  rw [Function.comp_apply, cellsOf_eq, List.filterMap_filterMap]
  refine List.filterMap_congr fun t _ => ?_
  rw [cellAt, allActions, cellOf]
  cases actionsFor (NumberedGrammar.ofGrammar g) _ _ t <;> rfl

lemma mem_conflicts_iff {c : Conflict} : c ∈ (ofGrammar prefers g).conflicts ↔
    c.state < (NumberedGrammar.ofGrammar g).collection.size ∧ c.terminal < g.terminals.size ∧
      (cellAt prefers g c.state c.terminal).conflict = some c := by
  simp only [conflicts_eq, List.mem_flatMap, List.mem_filterMap, List.mem_range]
  constructor
  · rintro ⟨s, hs, t, ht, hc⟩
    obtain ⟨_, rfl, rfl, _⟩ := cellAt_conflict_spec hc
    exact ⟨hs, ht, hc⟩
  · rintro ⟨hs, ht, hc⟩
    exact ⟨_, hs, _, ht, hc⟩

lemma conflicts_sorted : (ofGrammar prefers g).conflicts.Pairwise fun c d =>
    c.state < d.state ∨ c.state = d.state ∧ c.terminal < d.terminal := by
  rw [conflicts_eq, List.pairwise_flatMap]
  refine ⟨fun s _ => List.pairwise_filterMap.mpr ?_, List.pairwise_lt_range.imp fun {s u} hsu c hc d hd => ?_⟩
  · refine List.pairwise_lt_range.imp fun {t u} htu c hc d hd => ?_
    obtain ⟨_, hs, ht, _⟩ := cellAt_conflict_spec hc
    obtain ⟨_, hs', hu, _⟩ := cellAt_conflict_spec hd
    exact Or.inr ⟨hs.symm.trans hs', ht ▸ hu ▸ htu⟩
  · obtain ⟨t, _, hc⟩ := List.mem_filterMap.mp hc
    obtain ⟨u, _, hd⟩ := List.mem_filterMap.mp hd
    obtain ⟨_, hs, _⟩ := cellAt_conflict_spec hc
    obtain ⟨_, hu, _⟩ := cellAt_conflict_spec hd
    exact Or.inl (hs ▸ hu ▸ hsu)

lemma one_lt_length_iff {l : List Action} (h : l.Nodup) : 1 < l.length ↔ ∃ a b, a ≠ b ∧ a ∈ l ∧ b ∈ l := by
  constructor
  · intro hlen
    refine ⟨l[0], l[1], fun he => ?_, List.getElem_mem _, List.getElem_mem _⟩
    exact absurd ((h.getElem_inj_iff).mp he) Nat.zero_ne_one
  · rintro ⟨a, b, hne, ha, hb⟩
    by_contra hlen
    match l, Nat.not_lt.mp hlen with
    | [c], _ => exact hne ((List.mem_singleton.mp ha).trans (List.mem_singleton.mp hb).symm)

lemma exists_conflict_iff (hg : g.WellNumbered) (s t : Nat) :
    (∃ c ∈ (ofGrammar prefers g).conflicts, c.state = s ∧ c.terminal = t) ↔ 1 < (allActions g s t).length := by
  constructor
  · rintro ⟨c, hc, rfl, rfl⟩
    exact (cellAt_conflict_spec (mem_conflicts_iff.mp hc).2.2).1
  · intro hlen
    obtain ⟨a, ha⟩ := List.exists_mem_of_length_pos (Nat.zero_lt_of_lt hlen)
    obtain ⟨hs, ht⟩ := bounds_of_mem_allActions (NumberedGrammar.ofGrammar_wellFormed hg) ha
    obtain ⟨c, hc⟩ := Cell.exists_conflict s t ((preferred prefers g).contains t) hlen
    have hc : (cellAt prefers g s t).conflict = some c := hc
    obtain ⟨_, rfl, rfl, _⟩ := cellAt_conflict_spec hc
    exact ⟨c, mem_conflicts_iff.mpr ⟨hs, ht, hc⟩, rfl, rfl⟩

lemma mem_preferred_iff (hnodup : g.terminals.toList.Nodup) :
    t ∈ preferred prefers g ↔ ∃ name ∈ prefers, g.terminals[t]? = some name := by
  constructor
  · intro h
    obtain ⟨name, hname, hfind⟩ := List.mem_filterMap.mp h
    obtain ⟨hlt, he, _⟩ := Array.findIdx?_eq_some_iff_getElem.mp hfind
    exact ⟨name, hname, Array.getElem?_eq_some_iff.mpr ⟨hlt, eq_of_beq he⟩⟩
  · rintro ⟨name, hname, ht⟩
    exact mem_preferred hnodup ht hname

lemma mem_actionsAt_iff (hg : g.WellNumbered) : a ∈ (ofGrammar prefers g).table.actionsAt s t ↔
    a ∈ allActions g s t ∧ ((∃ c ∈ (ofGrammar prefers g).conflicts,
      c.state = s ∧ c.terminal = t ∧ c.resolution = .preferShift) → a.isShift = true) := by
  have hw := NumberedGrammar.ofGrammar_wellFormed hg
  have hterminals : (NumberedGrammar.ofGrammar g).terminals = g.terminals.size := Nat.add_sub_cancel_left _ _
  by_cases hin : s < (NumberedGrammar.ofGrammar g).collection.size ∧ t < g.terminals.size
  · obtain ⟨hs, ht⟩ := hin
    rw [table_actionsAt hs, hterminals, if_pos ht, cellAt, Cell.mem_ofActions_iff]
    refine and_congr_right' (imp_congr_left ⟨?_, ?_⟩)
    · rintro ⟨c, hc, hp⟩
      obtain ⟨_, rfl, rfl, _⟩ := cellAt_conflict_spec hc
      exact ⟨c, mem_conflicts_iff.mpr ⟨hs, ht, hc⟩, rfl, rfl, hp⟩
    · rintro ⟨c, hc, rfl, rfl, hp⟩
      exact ⟨c, (mem_conflicts_iff.mp hc).2.2, hp⟩
  · refine iff_of_false (fun ha => hin ?_) fun h => hin (bounds_of_mem_allActions hw h.1)
    by_cases hs : s < (NumberedGrammar.ofGrammar g).collection.size
    · rw [table_actionsAt hs, hterminals] at ha
      split at ha
      · exact ⟨hs, ‹_›⟩
      · cases ha
    · rw [table_actionsAt_of_le (Nat.not_lt.mp hs)] at ha
      cases ha

lemma conflictCount_eq : (ofGrammar prefers g).table.conflictCount = (ofGrammar prefers g).kept.length := by
  have hsum : (ofGrammar prefers g).table.conflictCount =
      ((ofGrammar prefers g).cells.toList.map (List.countP fun c => decide (1 < c.actions.length))).sum := by
    rw [Table.conflictCount, ← Array.foldl_toList, List.sum_eq_foldl, List.foldl_map]
    change List.foldl _ 0 ((ofGrammar prefers g).cells.map _).toList = _
    rw [Array.toList_map, List.foldl_map]
    simp only [List.countP_toArray, List.countP_map, Function.comp_def]
  have hkept : (ofGrammar prefers g).kept.length = ((ofGrammar prefers g).cells.toList.map
      (List.countP fun c => (c.conflict.map (·.resolution == .kept)).getD false)).sum := by
    rw [kept, ← List.countP_eq_length_filter, conflicts, List.countP_filterMap, List.countP_flatten]
  rw [hsum, hkept]
  refine congrArg List.sum (List.map_congr_left fun row hrow => List.countP_congr fun cell hcell => ?_)
  obtain ⟨s, _, rfl⟩ := Array.mem_map.mp (Array.mem_toList_iff.mp hrow)
  obtain ⟨_, _, _, hkept⟩ := cellsOf_spec hcell
  rw [decide_eq_true_eq, hkept]
  cases cell.conflict <;> simp

lemma mem_gotoRow {row : Array (Nat × Nat)} (hrow : row ∈ (ofGrammar prefers g).table.gotos) :
    ∃ s, row = (gotosOf (NumberedGrammar.ofGrammar g)
      ((NumberedGrammar.ofGrammar g).collection.transitions.getD s [])).toArray := by
  obtain ⟨transitions, htransitions, rfl⟩ := Array.mem_map.mp hrow
  obtain ⟨s, hs, rfl⟩ := Array.getElem_of_mem htransitions
  exact ⟨s, by rw [getElem_eq_getD hs []]; rfl⟩

variable (prefers) in
lemma ofGrammar_inBounds (hg : g.WellNumbered) : (ofGrammar prefers g).InBounds := by
  have hw := NumberedGrammar.ofGrammar_wellFormed hg
  refine ⟨fun s i hi => ?_, (NumberedGrammar.collection_spec hw).2, NumberedGrammar.row_pairwise hw,
    fun s p hp => NumberedGrammar.transition_lt hw hp, fun x a ha => ?_, (Analysis.sized_kernelLookaheads hw).1,
    fun s p hp a ha => ?_, fun s p hp => ?_, fun c hc => ?_⟩
  · exact NumberedGrammar.Closure.valid (fun j hj => NumberedGrammar.kernel_valid hw hj)
      ((NumberedGrammar.mem_closure hw).mp hi)
  · exact NumberedGrammar.first_isTerminal ha
  · have hlooks : (p.1, a) ∈ (Analysis.kernelSet (NumberedGrammar.ofGrammar g) s).looks := ⟨p.2, hp, ha⟩
    exact NumberedGrammar.looks_isTerminal hw (.base hlooks)
  · obtain ⟨r, la⟩ := p
    obtain ⟨i, hi, hc, rfl⟩ := Analysis.mem_reductions.mp hp
    refine ⟨?_, fun a ha => NumberedGrammar.looks_isTerminal hw ((Analysis.mem_closure_kernel hw hi).mp ha)⟩
    have hlt := (Analysis.closure_kernel_valid hw hi).rule_lt
    rwa [NumberedGrammar.ofGrammar, Array.size_map] at hlt
  · exact (mem_conflicts_iff.mp hc).imp_right And.left

variable (prefers) in
lemma ofGrammar_ordered (hg : g.WellNumbered) : (ofGrammar prefers g).table.Ordered := by
  have hw := NumberedGrammar.ofGrammar_wellFormed hg
  refine ⟨fun row hrow => (mem_tableRow hrow).1, fun row hrow => ?_, fun row hrow c hc => ?_, fun row hrow c hc => ?_,
    fun row hrow c hc u v hu hv => ?_⟩
  · obtain ⟨s, rfl⟩ := mem_gotoRow hrow
    exact (NumberedGrammar.row_pairwise hw s).filter _
  · exact ((mem_tableRow hrow).2 c hc).2.1
  · obtain ⟨_, _, s, t, hsublist⟩ := (mem_tableRow hrow).2 c hc
    exact (actionsFor_pairwise (Analysis.reductions_pairwise hw s)).sublist hsublist
  · obtain ⟨_, _, s, t, hsublist⟩ := (mem_tableRow hrow).2 c hc
    have hu := shift_mem_allActions.mp (hsublist.subset hu)
    have hv := shift_mem_allActions.mp (hsublist.subset hv)
    exact Option.some.inj (hu.symm.trans hv)

variable (prefers) in
lemma ofGrammar_validate (hg : g.WellNumbered) : (ofGrammar prefers g).table.validate = .ok () := by
  have hw := NumberedGrammar.ofGrammar_wellFormed hg
  have hbounds := ofGrammar_inBounds prefers hg
  have hstates : (ofGrammar prefers g).table.stateCount = (NumberedGrammar.ofGrammar g).collection.size := by
    change (((Array.range _).map _).map _).size = _
    rw [Array.size_map, Array.size_map, Array.size_range]
  refine Table.validate_eq_ok.mpr ⟨rfl, Nat.sub_one_lt_of_lt hg.terminals_pos, hg.lhs_lt, fun p hp s hs => ?_,
    fun row hrow c hc => ?_, fun row hrow c hc a ha => ?_, ?_, fun row hrow e he => ?_⟩
  · have hbelow := hg.rhs_below p hp s hs
    cases s <;> exact hbelow
  · exact ((mem_tableRow hrow).2 c hc).1
  · obtain ⟨_, _, s, t, hsublist⟩ := (mem_tableRow hrow).2 c hc
    have ha := (mem_allActions_iff prefers hg).mp (hsublist.subset ha)
    cases ha with
    | shift hu => exact (NumberedGrammar.goto?_kernel hw hu).1.trans_eq hstates.symm
    | reduce hmem => exact (hbounds.reduction s _ hmem).1
    | accept => trivial
  · exact (Array.size_map.trans hbounds.rows).trans hstates.symm
  · obtain ⟨s, rfl⟩ := mem_gotoRow hrow
    obtain ⟨he, hlt⟩ := List.mem_filter.mp (List.mem_toArray.mp he)
    exact ⟨of_decide_eq_true hlt, (hbounds.transition_lt s e he).2.trans_eq hstates.symm⟩

lemma ofGrammar_reportsConflicts (hg : g.WellNumbered) (hnodup : g.terminals.toList.Nodup) :
    (ofGrammar prefers g).ReportsConflicts prefers := by
  have hw := NumberedGrammar.ofGrammar_wellFormed hg
  have hspec := fun c (hc : c ∈ (ofGrammar prefers g).conflicts) => cellAt_conflict_spec (mem_conflicts_iff.mp hc).2.2
  refine ⟨conflicts_sorted, fun s t => ?_, fun c hc => ?_, fun c hc => ?_, fun c hc => ?_, fun s t a => ?_, ?_⟩
  · rw [exists_conflict_iff hg, one_lt_length_iff (allActions_nodup hw)]
    simp only [mem_allActions_iff prefers hg]
  · obtain ⟨_, _, _, hactions, _⟩ := hspec c hc
    rw [hactions]
    exact ⟨actionsFor_pairwise (Analysis.reductions_pairwise hw c.state), fun a => mem_allActions_iff prefers hg⟩
  · obtain ⟨_, _, _, hactions, hkind, _⟩ := hspec c hc
    rwa [hactions]
  · obtain ⟨_, _, _, hactions, _, hresolution⟩ := hspec c hc
    exact hactions ▸ hresolution.trans (and_congr_right' (mem_preferred_iff hnodup))
  · rw [mem_actionsAt_iff hg, mem_allActions_iff prefers hg]
  · rw [conflictCount_eq, kept]
    congr

end Construction

/-- Every generated table is well formed, and its report of conflicts is complete. Nothing that the
construction meets is out of range, whatever the grammar is; it fails only if the text is no
grammar, or if conflicts are left that the policy rejects. -/
theorem construct_wellFormed (text : String) (options : Options) :
    (∀ g, Grammar.parse text = .ok g → (Construction.ofGrammar options.preferShift g).InBounds) ∧
    (∀ e, construct text options = .error e →
      (∃ reason, Grammar.parse text = .error reason ∧ e = .grammar reason) ∨
      ∃ g, Grammar.parse text = .ok g ∧ options.policy = .reject ∧
        (Construction.ofGrammar options.preferShift g).kept ≠ [] ∧
        e = .unresolved (Construction.ofGrammar options.preferShift g).kept g.terminals) ∧
    ∀ K, construct text options = .ok K → K.table.validate = .ok () ∧
      (∀ (i : Nat) (p : Production), K.table.productions[i]? = some p → p.index = i) ∧ K.table.Ordered ∧
      K.ReportsConflicts options.preferShift ∧ (options.policy = .reject → K.table.conflictCount = 0) := by
  have hgrammar : ∀ g, Grammar.parse text = .ok g → ∃ rules, Grammar.ofRules rules = .ok g := fun g hg => by
    obtain ⟨rules, _, hrules⟩ := Grammar.ok_of_bind hg
    exact ⟨rules, hrules⟩
  refine ⟨fun g hg => ?_, fun e he => ?_, fun K hK => ?_⟩
  · obtain ⟨rules, hrules⟩ := hgrammar g hg
    exact Construction.ofGrammar_inBounds _ (Grammar.ofRules_wellNumbered hrules)
  · rw [construct] at he
    cases hg : Grammar.parse text with
    | error reason =>
      rw [hg] at he
      exact Or.inl ⟨reason, rfl, (Except.error.inj he).symm⟩
    | ok g =>
      rw [hg] at he
      dsimp only at he
      rw [Construction.check] at he
      split at he
      · rename_i hcond
        obtain ⟨hpolicy, hkept⟩ := Bool.and_eq_true_iff.mp hcond
        refine Or.inr ⟨g, rfl, of_decide_eq_true hpolicy, fun hnil => ?_, (Except.error.inj he).symm⟩
        rw [hnil] at hkept
        cases hkept
      · cases he
  · obtain ⟨g, hg, rfl⟩ := construct_ofGrammar hK
    obtain ⟨rules, hrules⟩ := hgrammar g hg
    have hnumbered := Grammar.ofRules_wellNumbered hrules
    refine ⟨Construction.ofGrammar_validate _ hnumbered, hnumbered.index_eq, Construction.ofGrammar_ordered _ hnumbered,
      Construction.ofGrammar_reportsConflicts hnumbered (Grammar.ofRules_terminals_nodup hrules), fun hpolicy => ?_⟩
    obtain ⟨prefers, policy⟩ := options
    obtain rfl := hpolicy
    rw [Construction.conflictCount_eq, kept_of_reject hK]
    rfl

def ambiguous : Grammar := ⟨#["a", "end"], #["Start", "S"],
  #[⟨0, "start", 0, 1, [.nonterm 1]⟩, ⟨1, "s1", 1, 1, [.nonterm 1, .nonterm 1]⟩, ⟨2, "s2", 1, 2, [.term 0]⟩]⟩

theorem construct_wellFormed_ambiguous : (∃ K, construct "S -> S S\nS -> a" {} = .ok K ∧
      K.table.validate = .ok () ∧ K.table.Ordered ∧ K.ReportsConflicts [] ∧ K.conflicts ≠ [] ∧ K.table.conflictCount = 1) ∧
    ∃ conflicts, construct "S -> S S\nS -> a" ⟨[], .reject⟩ = .error (.unresolved conflicts ambiguous.terminals) := by
  have hparse : Grammar.parse "S -> S S\nS -> a" = .ok ambiguous := by decide +kernel
  have hcount : (Construction.ofGrammar [] ambiguous).table.conflictCount = 1 := by decide +kernel
  have hconflicts : (Construction.ofGrammar [] ambiguous).conflicts ≠ [] := by decide +kernel
  have hconstruct : construct "S -> S S\nS -> a" {} = .ok (.ofGrammar [] ambiguous) := by
    rw [construct, hparse]
    rfl
  obtain ⟨hvalid, _, hordered, hreports, _⟩ := (construct_wellFormed "S -> S S\nS -> a" {}).2.2 _ hconstruct
  refine ⟨⟨_, hconstruct, hvalid, hordered, hreports, hconflicts, hcount⟩, ?_⟩
  cases hrejected : construct "S -> S S\nS -> a" ⟨[], .reject⟩ with
  | ok K =>
    have hzero := ((construct_wellFormed "S -> S S\nS -> a" ⟨[], .reject⟩).2.2 K hrejected).2.2.2.2 rfl
    obtain ⟨g, hg, rfl⟩ := construct_ofGrammar hrejected
    obtain rfl := Except.ok.inj (hparse.symm.trans hg)
    cases hcount.symm.trans hzero
  | error e =>
    rcases (construct_wellFormed "S -> S S\nS -> a" ⟨[], .reject⟩).2.1 e hrejected with ⟨_, he, _⟩ | ⟨g, hg, _, _, rfl⟩
    · cases hparse.symm.trans he
    · obtain rfl := Except.ok.inj (hparse.symm.trans hg)
      exact ⟨_, rfl⟩

end LR

end Ramify
