import Ramify.LR.Generator
import Ramify.Proofs.Grammar.Numbering
import Ramify.Proofs.LR.ViablePrefix
import Ramify.Proofs.Table.Lookup

namespace Ramify.LR

section Actions

variable {G : NumberedGrammar} {transitions reductions : List (Nat × Nat)} {t : Nat}

lemma shift_mem_actionsFor {s : Nat} : Action.shift s ∈ actionsFor G transitions reductions t ↔
    transitions.lookup (G.nonterminals + t) = some s := by
  simp only [actionsFor, List.mem_append, List.mem_map, Option.mem_toList]
  constructor
  · rintro ((⟨s', hs, he⟩ | ⟨p, _, he⟩) | h)
    · exact Action.shift.inj he ▸ hs
    · cases he
    · split at h <;> simp at h
  · exact fun h => Or.inl (Or.inl ⟨s, h, rfl⟩)

lemma reduce_mem_actionsFor {r : Nat} : Action.reduce r ∈ actionsFor G transitions reductions t ↔
    r ≠ 0 ∧ ∃ la, (r, la) ∈ reductions ∧ la.testBit (G.nonterminals + t) = true := by
  simp only [actionsFor, List.mem_append, List.mem_map, List.mem_filter]
  constructor
  · rintro ((⟨s, _, he⟩ | ⟨⟨r', la⟩, ⟨⟨hmem, hb⟩, hne⟩, he⟩) | h)
    · cases he
    · obtain rfl := Action.reduce.inj he
      exact ⟨by simpa using hne, la, hmem, hb⟩
    · split at h <;> simp at h
  · rintro ⟨hne, la, hmem, hb⟩
    exact Or.inl (Or.inr ⟨(r, la), ⟨⟨hmem, hb⟩, by simpa using hne⟩, rfl⟩)

lemma accept_mem_actionsFor : Action.accept ∈ actionsFor G transitions reductions t ↔
    G.nonterminals + t = G.endSymbol ∧ ∃ la, (0, la) ∈ reductions ∧ la.testBit G.endSymbol = true := by
  simp only [actionsFor, List.mem_append, List.mem_map]
  constructor
  · rintro ((⟨s, _, he⟩ | ⟨p, _, he⟩) | h)
    · cases he
    · cases he
    · split at h
      · rename_i hcond
        rw [Bool.and_eq_true, decide_eq_true_eq, List.any_eq_true] at hcond
        obtain ⟨he, ⟨r, la⟩, hmem, hr⟩ := hcond
        obtain ⟨hmem, hb⟩ := List.mem_filter.mp hmem
        obtain rfl : r = 0 := by simpa using hr
        exact ⟨he, la, hmem, he ▸ hb⟩
      · simp at h
  · rintro ⟨he, la, hmem, hb⟩
    refine Or.inr ?_
    rw [if_pos]
    · exact List.mem_singleton_self _
    · rw [Bool.and_eq_true, decide_eq_true_eq, List.any_eq_true]
      exact ⟨he, (0, la), List.mem_filter.mpr ⟨hmem, he ▸ hb⟩, rfl⟩

lemma actionsFor_nodup (h : reductions.Pairwise (·.1 < ·.1)) :
    (actionsFor G transitions reductions t).Nodup := by
  simp only [actionsFor]
  refine List.nodup_append'.mpr ⟨List.nodup_append'.mpr ⟨?_, ?_, ?_⟩, ?_, ?_⟩
  · cases transitions.lookup (G.nonterminals + t) <;> simp
  · rw [List.Nodup, List.pairwise_map]
    refine ((h.filter _).filter _).imp fun hlt he => ?_
    exact absurd (Action.reduce.inj he) (Nat.ne_of_lt hlt)
  · intro a ha hb
    obtain ⟨_, _, rfl⟩ := List.mem_map.mp ha
    obtain ⟨_, _, he⟩ := List.mem_map.mp hb
    cases he
  · split <;> simp
  · intro a ha hb
    split at hb
    · obtain rfl := List.mem_singleton.mp hb
      rcases List.mem_append.mp ha with ha | ha <;>
      · obtain ⟨_, _, he⟩ := List.mem_map.mp ha
        cases he
    · cases hb

end Actions

namespace Cell

variable {state t : Nat} {prefersShift : Bool} {actions : List Action}

lemma ofActions_terminal : (ofActions state t prefersShift actions).terminal = t := by
  rw [ofActions]
  split <;> rfl

lemma ofActions_sublist : (ofActions state t prefersShift actions).actions.Sublist actions := by
  rw [ofActions]
  split
  · exact List.Sublist.refl _
  · dsimp only
    split
    · exact List.filter_sublist
    · exact List.Sublist.refl _

lemma ofActions_actions (h : ∀ c, (ofActions state t prefersShift actions).conflict = some c →
    c.resolution ≠ .preferShift) : (ofActions state t prefersShift actions).actions = actions := by
  rw [ofActions] at h ⊢
  split
  · rfl
  · rename_i hlen
    rw [if_neg hlen] at h
    dsimp only at h ⊢
    split
    · rename_i hcond
      exact absurd (by rw [if_pos hcond]) (h _ rfl)
    · rfl

lemma mem_ofActions {a : Action} (ha : a ∈ actions)
    (h : a.isShift = false → prefersShift = true → ∀ b ∈ actions, b.isShift = false) :
    a ∈ (ofActions state t prefersShift actions).actions := by
  rw [ofActions]
  split
  · exact ha
  · dsimp only
    split
    · rename_i hcond
      obtain ⟨hany, hprefers⟩ := Bool.and_eq_true_iff.mp hcond
      obtain ⟨b, hb, hshift⟩ := List.any_eq_true.mp hany
      refine List.mem_filter.mpr ⟨ha, Bool.of_not_eq_false fun hnot => ?_⟩
      rw [h hnot hprefers b hb] at hshift
      cases hshift
    · exact ha

lemma ofActions_conflict {c : Conflict} (h : (ofActions state t prefersShift actions).conflict = some c)
    (hr : c.resolution = .preferShift) : c.terminal = t ∧ prefersShift = true := by
  rw [ofActions] at h
  split at h
  · cases h
  · obtain rfl := Option.some.inj h
    refine ⟨rfl, ?_⟩
    dsimp only at hr
    split at hr
    · rename_i hcond
      exact (Bool.and_eq_true_iff.mp hcond).2
    · cases hr

end Cell

section Row

variable {G : NumberedGrammar} {prefers : List Nat} {s : Nat} {transitions reductions : List (Nat × Nat)}

def cellOf (G : NumberedGrammar) (prefers : List Nat) (s : Nat) (transitions reductions : List (Nat × Nat))
    (t : Nat) : Option Cell :=
  match actionsFor G transitions reductions t with
  | [] => none
  | actions => some (.ofActions s t (prefers.contains t) actions)

lemma cellsOf_eq : cellsOf G prefers s transitions reductions =
    (List.range G.terminals).filterMap (cellOf G prefers s transitions reductions) := rfl

lemma cellOf_eq_some {t : Nat} {c : Cell} : cellOf G prefers s transitions reductions t = some c ↔
    actionsFor G transitions reductions t ≠ [] ∧
      c = .ofActions s t (prefers.contains t) (actionsFor G transitions reductions t) := by
  rw [cellOf]
  cases actionsFor G transitions reductions t with
  | nil => simp
  | cons a as => simp [eq_comm]

lemma cellsOf_sorted : Table.Sorted
    ((cellsOf G prefers s transitions reductions).map fun c => (c.terminal, c.actions)).toArray := by
  rw [Table.Sorted, List.pairwise_map, cellsOf_eq, List.pairwise_filterMap]
  refine List.pairwise_lt_range.imp fun {t u} htu c hc d hd => ?_
  rw [(cellOf_eq_some.mp hc).2, (cellOf_eq_some.mp hd).2, Cell.ofActions_terminal, Cell.ofActions_terminal]
  exact htu

lemma find?_cellsOf {t : Nat} :
    (Table.find? ((cellsOf G prefers s transitions reductions).map
      fun c => (c.terminal, c.actions)).toArray t).getD [] =
      if t < G.terminals then
        (Cell.ofActions s t (prefers.contains t) (actionsFor G transitions reductions t)).actions
      else [] := by
  have hmem : ∀ acts, (t, acts) ∈ ((cellsOf G prefers s transitions reductions).map
      fun c => (c.terminal, c.actions)).toArray ↔ t < G.terminals ∧
        actionsFor G transitions reductions t ≠ [] ∧
        acts = (Cell.ofActions s t (prefers.contains t) (actionsFor G transitions reductions t)).actions := by
    intro acts
    rw [List.mem_toArray, List.mem_map, cellsOf_eq]
    constructor
    · rintro ⟨c, hc, he⟩
      obtain ⟨u, hu, hc⟩ := List.mem_filterMap.mp hc
      obtain ⟨hne, rfl⟩ := cellOf_eq_some.mp hc
      obtain ⟨rfl, rfl⟩ := Prod.mk.inj he
      rw [Cell.ofActions_terminal] at *
      exact ⟨List.mem_range.mp hu, hne, rfl⟩
    · rintro ⟨hlt, hne, rfl⟩
      refine ⟨_, List.mem_filterMap.mpr ⟨t, List.mem_range.mpr hlt, cellOf_eq_some.mpr ⟨hne, rfl⟩⟩, ?_⟩
      rw [Cell.ofActions_terminal]
  rw [Option.getD_eq_iff]
  split
  · rename_i hlt
    by_cases hne : actionsFor G transitions reductions t = []
    · refine Or.inr ⟨Option.eq_none_iff_forall_ne_some.mpr fun acts hf => ?_, ?_⟩
      · exact ((hmem acts).mp ((Table.find?_eq_some cellsOf_sorted).mp hf)).2.1 hne
      · rw [hne]
        rfl
    · exact Or.inl ((Table.find?_eq_some cellsOf_sorted).mpr ((hmem _).mpr ⟨hlt, hne, rfl⟩))
  · rename_i hlt
    refine Or.inr ⟨Option.eq_none_iff_forall_ne_some.mpr fun acts hf => ?_, rfl⟩
    exact hlt ((hmem acts).mp ((Table.find?_eq_some cellsOf_sorted).mp hf)).1

end Row

lemma exists_reduction_iff {G : NumberedGrammar} (hw : G.WellFormed) {s r a : Nat} :
    (∃ la, (r, la) ∈ (Analysis.ofGrammar G).reductions ((Analysis.kernelLookaheads G).getD s []) ∧
      la.testBit a = true) ↔ G.Looks (Analysis.kernelSet G s) ⟨r, (G.right r).length⟩ a := by
  constructor
  · rintro ⟨la, hmem, ha⟩
    obtain ⟨i, hi, hc, rfl⟩ := Analysis.mem_reductions.mp hmem
    rw [← Analysis.complete_eq hw hi hc]
    exact (Analysis.mem_closure_kernel hw hi).mp ha
  · intro h
    have hl : (⟨r, (G.right r).length⟩, a) ∈ ((Analysis.kernelSet G s).closure G).looks := h
    rw [← Analysis.closure_kernel_eq hw] at hl
    obtain ⟨la, hmem, ha⟩ := hl
    exact ⟨la, Analysis.mem_reductions.mpr ⟨_, hmem, decide_eq_true le_rfl, rfl⟩, ha⟩

namespace Construction

variable (prefers : List String) (g : Grammar)

def preferred : List Nat := prefers.filterMap fun name => g.terminals.findIdx? (· == name)

def allActions (s t : Nat) : List Action :=
  let G := NumberedGrammar.ofGrammar g
  actionsFor G (G.collection.transitions.getD s [])
    ((Analysis.ofGrammar G).reductions ((Analysis.kernelLookaheads G).getD s [])) t

def cellAt (s t : Nat) : Cell :=
  .ofActions s t ((preferred prefers g).contains t) (allActions g s t)

variable {prefers g}

variable (prefers) in
lemma cells_getElem? {s : Nat} (hs : s < (NumberedGrammar.ofGrammar g).collection.size) :
    (ofGrammar prefers g).cells[s]? = some (cellsOf (NumberedGrammar.ofGrammar g) (preferred prefers g) s
      ((NumberedGrammar.ofGrammar g).collection.transitions.getD s [])
      ((Analysis.ofGrammar (NumberedGrammar.ofGrammar g)).reductions
        ((Analysis.kernelLookaheads (NumberedGrammar.ofGrammar g)).getD s []))) := by
  change ((Array.range _).map _)[s]? = _
  rw [Array.getElem?_map, Array.getElem?_range, if_pos hs]
  rfl

lemma table_actionsAt {s : Nat} (hs : s < (NumberedGrammar.ofGrammar g).collection.size) (t : Nat) :
    (ofGrammar prefers g).table.actionsAt s t =
      if t < (NumberedGrammar.ofGrammar g).terminals then (cellAt prefers g s t).actions else [] := by
  rw [Table.actionsAt]
  change (((ofGrammar prefers g).cells.map _)[s]?.bind _).getD [] = _
  rw [Array.getElem?_map, cells_getElem? prefers hs]
  exact find?_cellsOf

lemma table_actionsAt_of_le {s : Nat}
    (hs : (NumberedGrammar.ofGrammar g).collection.size ≤ s) (t : Nat) :
    (ofGrammar prefers g).table.actionsAt s t = [] := by
  have hnone : (ofGrammar prefers g).table.actions[s]? = none := by
    rw [Array.getElem?_eq_none_iff]
    change ((((Array.range _).map _).map _).size) ≤ s
    rwa [Array.size_map, Array.size_map, Array.size_range]
  rw [Table.actionsAt, hnone]
  rfl

lemma mem_conflicts {s t : Nat} (hs : s < (NumberedGrammar.ofGrammar g).collection.size)
    (ht : t < (NumberedGrammar.ofGrammar g).terminals) {c : Conflict}
    (hc : (cellAt prefers g s t).conflict = some c) : c ∈ (ofGrammar prefers g).conflicts := by
  have hne : allActions g s t ≠ [] := by
    intro he
    rw [cellAt, he] at hc
    cases hc
  have hrow := Array.mem_of_getElem? (cells_getElem? prefers hs)
  refine List.mem_filterMap.mpr ⟨cellAt prefers g s t, ?_, hc⟩
  refine List.mem_flatten.mpr ⟨_, Array.mem_toList_iff.mpr hrow, ?_⟩
  rw [cellsOf_eq, List.mem_filterMap]
  exact ⟨t, List.mem_range.mpr ht, cellOf_eq_some.mpr ⟨hne, rfl⟩⟩

lemma cellAt_actions (h : ∀ c ∈ (ofGrammar prefers g).conflicts, c.resolution ≠ .preferShift) {s t : Nat}
    (hs : s < (NumberedGrammar.ofGrammar g).collection.size)
    (ht : t < (NumberedGrammar.ofGrammar g).terminals) :
    (cellAt prefers g s t).actions = allActions g s t :=
  Cell.ofActions_actions fun c hc => h c (mem_conflicts hs ht hc)

lemma preferred_of_conflict {c : Conflict} (hc : c ∈ (ofGrammar prefers g).conflicts)
    (hr : c.resolution = .preferShift) : c.terminal ∈ preferred prefers g := by
  obtain ⟨cell, hcell, hconflict⟩ := List.mem_filterMap.mp hc
  obtain ⟨row, hrow, hcell⟩ := List.mem_flatten.mp hcell
  obtain ⟨s, _, rfl⟩ := Array.mem_map.mp (Array.mem_toList_iff.mp hrow)
  rw [cellsOf_eq] at hcell
  obtain ⟨t, _, hcell⟩ := List.mem_filterMap.mp hcell
  rw [(cellOf_eq_some.mp hcell).2] at hconflict
  obtain ⟨rfl, hp⟩ := Cell.ofActions_conflict hconflict hr
  exact List.contains_iff_mem.mp hp

lemma table_goto? (hw : (NumberedGrammar.ofGrammar g).WellFormed) (s n : Nat) :
    (ofGrammar prefers g).table.goto? s n =
      if n < g.nonterminals.size then (NumberedGrammar.ofGrammar g).collection.goto? s n else none := by
  set G := NumberedGrammar.ofGrammar g
  have hsorted : Table.Sorted (gotosOf G (G.collection.transitions.getD s [])).toArray :=
    (NumberedGrammar.row_pairwise hw s).filter _
  have hfind : ∀ t, Table.find? (gotosOf G (G.collection.transitions.getD s [])).toArray n = some t ↔
      n < g.nonterminals.size ∧ G.collection.goto? s n = some t := by
    intro t
    rw [Table.find?_eq_some hsorted, List.mem_toArray, gotosOf, List.mem_filter, Collection.goto?,
      lookup_eq_some_iff_mem (nodup_keys (NumberedGrammar.row_pairwise hw s)), and_comm]
    simp [G, NumberedGrammar.ofGrammar]
  have hrow : (ofGrammar prefers g).table.goto? s n =
      Table.find? (gotosOf G (G.collection.transitions.getD s [])).toArray n := by
    rw [Table.goto?]
    change ((G.collection.transitions.map _)[s]?).bind _ = _
    rw [Array.getElem?_map, Array.getD_eq_getD_getElem?]
    cases G.collection.transitions[s]? with
    | none => simp [gotosOf, Table.find?]
    | some row => rfl
  rw [hrow]
  split
  · rename_i hlt
    exact Option.ext fun t => (hfind t).trans (and_iff_right hlt)
  · rename_i hlt
    exact Option.eq_none_iff_forall_ne_some.mpr fun t ht => hlt ((hfind t).mp ht).1

variable {s t : Nat}

lemma shift_mem_allActions {u : Nat} : Action.shift u ∈ allActions g s t ↔
    (NumberedGrammar.ofGrammar g).collection.goto? s (g.nonterminals.size + t) = some u :=
  shift_mem_actionsFor

lemma reduce_mem_allActions (hw : (NumberedGrammar.ofGrammar g).WellFormed) {r : Nat} :
    Action.reduce r ∈ allActions g s t ↔ r ≠ 0 ∧
      (NumberedGrammar.ofGrammar g).Looks (Analysis.kernelSet (NumberedGrammar.ofGrammar g) s)
        ⟨r, ((NumberedGrammar.ofGrammar g).right r).length⟩ (g.nonterminals.size + t) :=
  reduce_mem_actionsFor.trans (and_congr_right' (exists_reduction_iff hw))

lemma accept_mem_allActions (hw : (NumberedGrammar.ofGrammar g).WellFormed) :
    Action.accept ∈ allActions g s t ↔
      g.nonterminals.size + t = (NumberedGrammar.ofGrammar g).endSymbol ∧
      (NumberedGrammar.ofGrammar g).Looks (Analysis.kernelSet (NumberedGrammar.ofGrammar g) s)
        ⟨0, ((NumberedGrammar.ofGrammar g).right 0).length⟩ (NumberedGrammar.ofGrammar g).endSymbol :=
  accept_mem_actionsFor.trans (and_congr_right' (exists_reduction_iff hw))

lemma allActions_nodup (hw : (NumberedGrammar.ofGrammar g).WellFormed) : (allActions g s t).Nodup :=
  actionsFor_nodup (Analysis.reductions_pairwise hw s)

lemma bounds_of_mem_allActions (hw : (NumberedGrammar.ofGrammar g).WellFormed)
    {a : Action} (ha : a ∈ allActions g s t) :
    s < (NumberedGrammar.ofGrammar g).collection.size ∧ t < g.terminals.size := by
  cases a with
  | shift u =>
    have hg := shift_mem_allActions.mp ha
    obtain ⟨i, _, hn⟩ := NumberedGrammar.exists_item_of_goto? hw hg
    have hlt := NumberedGrammar.right_symbols_lt hw.inRange i.rule _ (List.mem_of_getElem? hn)
    exact ⟨NumberedGrammar.goto?_lt hw hg, Nat.lt_of_add_lt_add_left hlt⟩
  | reduce index =>
    obtain ⟨_, hl⟩ := (reduce_mem_allActions hw).mp ha
    exact ⟨NumberedGrammar.lt_size_of_mem_closure hw (NumberedGrammar.looks_mem_closure hw hl),
      Nat.lt_of_add_lt_add_left (NumberedGrammar.looks_lt hw hl)⟩
  | accept =>
    obtain ⟨he, hl⟩ := (accept_mem_allActions hw).mp ha
    exact ⟨NumberedGrammar.lt_size_of_mem_closure hw (NumberedGrammar.looks_mem_closure hw hl),
      Nat.lt_of_add_lt_add_left (he ▸ NumberedGrammar.looks_lt hw hl)⟩

lemma kept_of_check {K : Construction} (h : K.check .reject = .ok ()) : K.kept = [] := by
  rw [check] at h
  split at h
  · cases h
  · rename_i hcond
    simpa using hcond

end Construction

lemma construct_ofGrammar {text : String} {options : Options} {K : Construction} (h : construct text options = .ok K) :
    ∃ g : Grammar, Grammar.parse text = .ok g ∧ K = .ofGrammar options.preferShift g := by
  rw [construct] at h
  cases hg : Grammar.parse text with
  | error e =>
    rw [hg] at h
    cases h
  | ok g =>
    rw [hg] at h
    obtain ⟨_, _, hK⟩ := Grammar.ok_of_bind h
    exact ⟨g, rfl, (Except.ok.inj hK).symm⟩

lemma kept_of_reject {text : String} {prefers : List String} {K : Construction}
    (h : construct text ⟨prefers, .reject⟩ = .ok K) : K.kept = [] := by
  rw [construct] at h
  cases hg : Grammar.parse text with
  | error e =>
    rw [hg] at h
    cases h
  | ok g =>
    rw [hg] at h
    obtain ⟨_, hcheck, hK⟩ := Grammar.ok_of_bind h
    obtain rfl := Except.ok.inj hK
    exact Construction.kept_of_check hcheck

lemma construct_ok {text : String} {options : Options} {K : Construction} (h : construct text options = .ok K) :
    ∃ g : Grammar, g.WellNumbered ∧ K = .ofGrammar options.preferShift g := by
  obtain ⟨g, hg, hK⟩ := construct_ofGrammar h
  obtain ⟨rules, _, hrules⟩ := Grammar.ok_of_bind hg
  exact ⟨g, Grammar.ofRules_wellNumbered hrules, hK⟩

end Ramify.LR
