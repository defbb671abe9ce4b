import Ramify.Proofs.Grammar.Names
import Ramify.Proofs.Grammar.WrittenRules

/-! Which texts are grammars, and which grammar a text is. The rules of the text decide both, and
not how they are laid out. -/

namespace Ramify.Grammar

def ordinalAt (rules : List Rule) (i : Nat) (r : Rule) : Nat := countLeft r.left (rules.take (i + 1))

def labelAt (fallback : String → Nat → String) (rules : List Rule) (i : Nat) (r : Rule) : String :=
  r.label.getD (fallback r.left (ordinalAt rules i r))

/-- What is asked of the rules of a grammar. -/
structure Acceptable (fallback : String → Nat → String) (rules : List Rule) : Prop where
  nonempty : rules ≠ []
  left_ne_start : ∀ r ∈ rules, r.left ≠ startName
  end_notMem : ∀ r ∈ rules, .term endName ∉ r.right
  defined : ∀ r ∈ rules, ∀ n, .nonterm n ∈ r.right → n ≠ startName → n ∈ rules.map Rule.left
  labels_nodup : (startLabel :: rules.mapIdx (labelAt fallback rules)).Nodup

section Labels

lemma ordinalAt_zero (r : Rule) (rules : List Rule) : ordinalAt (r :: rules) 0 r = 1 := by
  simp [ordinalAt, countLeft]

lemma countLeft_ordinalAt (earlier rules : List Rule) (r q : Rule) (i : Nat) :
    countLeft q.left (r :: earlier) + ordinalAt rules i q =
      countLeft q.left earlier + ordinalAt (r :: rules) (i + 1) q := by
  rw [ordinalAt, ordinalAt, List.take_succ_cons, countLeft, countLeft, countLeft, countLeft, List.countP_cons,
    List.countP_cons]
  omega

lemma getElem?_labelsAfter (earlier rules : List Rule) (i : Nat) :
    (labelsAfter earlier rules)[i]? = rules[i]?.map fun r =>
      r.label.getD (defaultLabel r.left (countLeft r.left earlier + ordinalAt rules i r)) := by
  induction rules generalizing earlier i with
  | nil => rfl
  | cons r rules ih =>
    cases i with
    | zero => rw [labelsAfter, List.getElem?_cons_zero, List.getElem?_cons_zero, Option.map_some, ordinalAt_zero]
    | succ i =>
      rw [labelsAfter, List.getElem?_cons_succ, List.getElem?_cons_succ, ih]
      simp only [countLeft_ordinalAt]

lemma labelsAfter_nil (rules : List Rule) : labelsAfter [] rules = rules.mapIdx (labelAt defaultLabel rules) := by
  refine List.ext_getElem? fun i => ?_
  rw [getElem?_labelsAfter, List.getElem?_mapIdx]
  refine congrArg (Option.map · _) (funext fun r => ?_)
  rw [labelAt, countLeft, List.countP_nil, Nat.zero_add]

lemma getElem?_labelled {earlier rules : List Rule} {labels : List String} {checked : List (Rule × Nat × String)}
    (h : labelled earlier labels rules = .ok checked) (i : Nat) :
    checked[i]? = rules[i]?.map fun r => (r, countLeft r.left earlier + ordinalAt rules i r,
      r.label.getD (defaultLabel r.left (countLeft r.left earlier + ordinalAt rules i r))) := by
  induction rules generalizing earlier labels checked i with
  | nil =>
    cases h
    rfl
  | cons r rules ih =>
    rw [labelled] at h
    obtain ⟨_, h⟩ := ok_of_check h
    obtain ⟨_, h⟩ := ok_of_check h
    obtain ⟨_, h⟩ := ok_of_check h
    obtain ⟨rest, hrest, h⟩ := ok_of_bind h
    cases h
    cases i with
    | zero => rw [List.getElem?_cons_zero, List.getElem?_cons_zero, Option.map_some, ordinalAt_zero]
    | succ i =>
      rw [List.getElem?_cons_succ, List.getElem?_cons_succ, ih hrest]
      simp only [countLeft_ordinalAt]

lemma getElem?_labelled_nil {rules : List Rule} {labels : List String} {checked : List (Rule × Nat × String)}
    (h : labelled [] labels rules = .ok checked) (i : Nat) :
    checked[i]? = rules[i]?.map fun r => (r, ordinalAt rules i r, labelAt defaultLabel rules i r) := by
  simp only [getElem?_labelled h, countLeft, List.countP_nil, Nat.zero_add, labelAt]

lemma labelled_labels {rules : List Rule} {labels : List String} {checked : List (Rule × Nat × String)}
    (h : labelled [] labels rules = .ok checked) :
    checked.map (·.2.2) = rules.mapIdx (labelAt defaultLabel rules) := by
  refine List.ext_getElem? fun i => ?_
  rw [List.getElem?_map, List.getElem?_mapIdx, getElem?_labelled_nil h, Option.map_map]
  rfl

lemma labelled_left {earlier rules : List Rule} {labels : List String} {checked : List (Rule × Nat × String)}
    (h : labelled earlier labels rules = .ok checked) : ∀ r ∈ rules, r.left ≠ startName := by
  induction rules generalizing earlier labels checked with
  | nil => exact nofun
  | cons r rules ih =>
    rw [labelled] at h
    obtain ⟨hleft, h⟩ := ok_of_check h
    obtain ⟨_, h⟩ := ok_of_check h
    obtain ⟨_, h⟩ := ok_of_check h
    obtain ⟨rest, hrest, _⟩ := ok_of_bind h
    exact List.forall_mem_cons.mpr ⟨hleft, ih hrest⟩

end Labels

section Accept

variable {rules : List Rule} {g : Grammar}

lemma ofRules_defined (h : ofRules rules = .ok g) : ∀ r ∈ rules, ∀ n, .nonterm n ∈ r.right → n ≠ startName →
    n ∈ rules.map Rule.left := by
  cases rules with
  | nil => exact nofun
  | cons first rest =>
    rw [ofRules] at h
    obtain ⟨_, h⟩ := ok_of_check h
    obtain ⟨checked, _, h⟩ := ok_of_bind h
    obtain ⟨hundefined, _⟩ := ok_of_check h
    rw [not_not, List.filter_eq_nil_iff] at hundefined
    intro r hr n hn hstart
    have hcond := hundefined n (named_right hr hn)
    rw [Bool.and_eq_true, bne_iff_ne, not_and, Bool.not_eq_true', Bool.not_eq_false, List.any_eq_true] at hcond
    obtain ⟨r', hr', he⟩ := hcond hstart
    exact List.mem_map.mpr ⟨r', hr', eq_of_beq he⟩

lemma exists_ofRules_iff : (∃ g, ofRules rules = .ok g) ↔ Acceptable defaultLabel rules := by
  constructor
  · rintro ⟨g, h⟩
    obtain ⟨first, rest, checked, hrules, _, hchecked, _⟩ := ofRules_eq h
    obtain ⟨hnodup, hnew, _⟩ := labelled_nodup hchecked
    rw [labelled_labels hchecked] at hnodup
    have hstart : startLabel ∉ rules.mapIdx (labelAt defaultLabel rules) := by
      rw [← labelled_labels hchecked]
      intro hmem
      obtain ⟨c, hc, he⟩ := List.mem_map.mp hmem
      exact hnew c hc (he ▸ List.mem_cons_self)
    exact ⟨hrules ▸ List.cons_ne_nil first rest, labelled_left hchecked, labelled_end hchecked, ofRules_defined h,
      List.nodup_cons.mpr ⟨hstart, hnodup⟩⟩
  · intro h
    refine ofRules_ok h.nonempty (fun r hr => ⟨h.left_ne_start r hr, h.end_notMem r hr⟩) h.defined ?_
    rw [labelsAfter_nil]
    exact h.labels_nodup

end Accept

structure FirstOccurrences (names out : List String) : Prop where
  mem_iff : ∀ name, name ∈ out ↔ name ∈ names
  ordered : out.Pairwise fun a b => names.idxOf a < names.idxOf b

def Stands (g : Grammar) : NamedSymbol → Symbol → Prop
  | .term name, .term t => g.terminals[t]? = some name
  | .nonterm name, .nonterm n => g.nonterminals[n]? = some name
  | _, _ => False

/-- A production that is told by the names of its symbols. -/
structure Renders (g : Grammar) (p : Production) (index ordinal : Nat) (label left : String)
    (right : List NamedSymbol) : Prop where
  index_eq : p.index = index
  ordinal_eq : p.ordinal = ordinal
  label_eq : p.label = label
  lhs : g.nonterminals[p.lhs]? = some left
  rhs : List.Forall₂ (Stands g) right p.rhs

structure Describes (fallback : String → Nat → String) (rules : List Rule) (g : Grammar) : Prop where
  terminals : FirstOccurrences (rules.flatMap Rule.terminals ++ [endName]) g.terminals.toList
  end_last : g.terminals.back? = some endName
  nonterminals : FirstOccurrences (startName :: rules.flatMap Rule.nonterminals) g.nonterminals.toList
  start_first : g.nonterminals[0]? = some startName
  size_eq : g.productions.size = rules.length + 1
  start : ∃ first p, rules.head? = some first ∧ g.productions[0]? = some p ∧
    Renders g p 0 1 startLabel startName [.nonterm first.left]
  rule : ∀ (i : Nat) (r : Rule), rules[i]? = some r → ∃ p, g.productions[i + 1]? = some p ∧
    Renders g p (i + 1) (ordinalAt rules i r) (labelAt fallback rules i r) r.left r.right
  in_range : ∀ p ∈ g.productions, p.lhs < g.nonterminals.size ∧
    ∀ s ∈ p.rhs, s.Below g.terminals.size g.nonterminals.size

section FirstOccurrences

variable {names out : List String}

lemma FirstOccurrences.nodup (h : FirstOccurrences names out) : out.Nodup :=
  h.ordered.imp fun hlt he => absurd (congrArg names.idxOf he) hlt.ne

lemma FirstOccurrences.unique {out' : List String} (h : FirstOccurrences names out)
    (h' : FirstOccurrences names out') : out = out' := by
  have hperm : out.Perm out' :=
    (List.perm_ext_iff_of_nodup h.nodup h'.nodup).mpr fun name => (h.mem_iff name).trans (h'.mem_iff name).symm
  exact hperm.eq_of_pairwise (fun a b _ _ hlt hlt' => absurd hlt hlt'.asymm) h.ordered h'.ordered

lemma distinct_concat_of_mem {n : String} (h : n ∈ names) : distinct (names ++ [n]) = distinct names := by
  rw [distinct, List.foldl_append, List.foldl_cons, List.foldl_nil, if_pos, ← distinct]
  rw [List.contains_iff_mem, ← List.mem_reverse, ← distinct, mem_distinct]
  exact h

lemma firstOccurrences_distinct (names : List String) : FirstOccurrences names (distinct names) := by
  refine ⟨fun name => mem_distinct, ?_⟩
  induction names using List.reverseRecOn with
  | nil => exact .nil
  | append_singleton names n ih =>
    have hkeep : ∀ a ∈ distinct names, (names ++ [n]).idxOf a = names.idxOf a := fun a ha =>
      List.idxOf_append_of_mem (mem_distinct.mp ha)
    have hold : (distinct names).Pairwise fun a b => (names ++ [n]).idxOf a < (names ++ [n]).idxOf b :=
      ih.imp_of_mem fun ha hb hlt => by rwa [hkeep _ ha, hkeep _ hb]
    by_cases hn : n ∈ names
    · rw [distinct_concat_of_mem hn]
      exact hold
    · rw [distinct_concat hn, List.pairwise_append]
      refine ⟨hold, List.pairwise_singleton _ _, fun a ha b hb => ?_⟩
      rw [List.mem_singleton.mp hb, hkeep a ha, List.idxOf_append_of_notMem hn, List.idxOf_cons_self]
      exact List.idxOf_lt_length_of_mem (mem_distinct.mp ha)

end FirstOccurrences

section Describe

variable {rules : List Rule} {g : Grammar}

lemma stands_numberOf (h : ofRules rules = .ok g) {x : NamedSymbol} (hx : Named rules x) :
    Stands g x (numberOf rules x) := by
  cases x with
  | term t =>
    change g.terminals[(terminalNames rules).idxOf t]? = some t
    rw [ofRules_terminals h, List.getElem?_toArray]
    exact List.getElem?_idxOf hx
  | nonterm n => exact ofRules_nonterminal h hx rfl

lemma stands_numbers (h : ofRules rules = .ok g) {right : List NamedSymbol} (hright : ∀ x ∈ right, Named rules x) :
    List.Forall₂ (Stands g) right (right.map (numberOf rules)) := by
  rw [List.forall₂_map_right_iff, List.forall₂_same]
  exact fun x hx => stands_numberOf h (hright x hx)

lemma ofRules_describes (h : ofRules rules = .ok g) : Describes defaultLabel rules g := by
  have hwell := ofRules_wellNumbered h
  obtain ⟨first, rest, checked, hrules, _, hchecked, ht, hn, hp⟩ := ofRules_eq h
  have hfirst : first ∈ rules := hrules ▸ List.mem_cons_self
  have hzero : g.nonterminals[0]? = some startName := by
    rw [hn, List.getElem?_toArray]
    exact getElem?_distinct_zero _ _
  have hlength : checked.length = rules.length := by
    rw [← labelled_rules hchecked, List.length_map]
  refine ⟨?_, ?_, ?_, hzero, ?_, ?_, fun i r hr => ?_, fun p hp => ⟨hwell.lhs_lt p hp, hwell.rhs_below p hp⟩⟩
  · rw [ht]
    exact firstOccurrences_distinct _
  · rw [ht, distinct_concat (end_notMem_terminals (labelled_end hchecked)), List.back?_toArray, List.getLast?_concat]
  · rw [hn]
    exact firstOccurrences_distinct _
  · rw [hp, List.size_toArray, List.length_cons, List.length_map, List.length_zipIdx, hlength]
  · refine ⟨first, _, hrules ▸ rfl, by rw [hp]; rfl, rfl, rfl, rfl, hzero, ?_⟩
    exact .cons (stands_numberOf h (named_left hfirst)) .nil
  · have hc := getElem?_labelled_nil hchecked i
    rw [hr, Option.map_some] at hc
    refine ⟨productionOf (terminalNames rules) (nonterminalNames rules) i
      (r, ordinalAt rules i r, labelAt defaultLabel rules i r), ?_, rfl, rfl, rfl, ?_, ?_⟩
    · rw [hp, List.getElem?_toArray, List.getElem?_cons_succ, List.getElem?_map, List.getElem?_zipIdx, hc,
        Nat.zero_add]
      rfl
    · exact stands_numberOf h (named_left (List.mem_of_getElem? hr))
    · exact stands_numbers h fun x hx => named_right (List.mem_of_getElem? hr) hx

section Unique

variable {g' : Grammar} (ht : g.terminals = g'.terminals) (hn : g.nonterminals = g'.nonterminals)

lemma place_unique {names : Array String} (h : names.toList.Nodup) {i j : Nat} {name : String}
    (hi : names[i]? = some name) (hj : names[j]? = some name) : i = j := by
  refine (List.getElem?_inj ?_ h).mp ?_
  · exact Array.length_toList ▸ (Array.getElem?_eq_some_iff.mp hi).1
  · rw [Array.getElem?_toList, Array.getElem?_toList, hi, hj]

lemma rightUnique_stands (hterminals : g.terminals.toList.Nodup) (hnonterminals : g.nonterminals.toList.Nodup) :
    Relator.RightUnique (Stands g) := by
  intro x s s' h h'
  cases x with
  | term name =>
    cases s with
    | term t =>
      cases s' with
      | term t' => exact congrArg Symbol.term (place_unique hterminals h h')
      | nonterm n' => cases h'
    | nonterm n => cases h
  | nonterm name =>
    cases s with
    | term t => cases h
    | nonterm n =>
      cases s' with
      | term t' => cases h'
      | nonterm n' => exact congrArg Symbol.nonterm (place_unique hnonterminals h h')

include ht hn

lemma stands_congr : Stands g = Stands g' := by
  funext x s
  cases x <;> cases s <;> simp only [Stands, ht, hn]

lemma Renders.unique (hterminals : g.terminals.toList.Nodup) (hnonterminals : g.nonterminals.toList.Nodup)
    {p p' : Production} {index ordinal : Nat} {label left : String} {right : List NamedSymbol}
    (h : Renders g p index ordinal label left right) (h' : Renders g' p' index ordinal label left right) :
    p = p' := by
  have hlhs := place_unique hnonterminals h.lhs (hn ▸ h'.lhs)
  have hrhs := (rightUnique_stands hterminals hnonterminals).forall₂ h.rhs
    (stands_congr ht hn ▸ h'.rhs)
  have hindex := h.index_eq.trans h'.index_eq.symm
  have hordinal := h.ordinal_eq.trans h'.ordinal_eq.symm
  have hlabel := h.label_eq.trans h'.label_eq.symm
  obtain ⟨_, _, _, _, _⟩ := p
  obtain ⟨_, _, _, _, _⟩ := p'
  exact Production.mk.injEq .. ▸ ⟨hindex, hlabel, hlhs, hordinal, hrhs⟩

end Unique

lemma Describes.unique {fallback : String → Nat → String} {g' : Grammar} (h : Describes fallback rules g)
    (h' : Describes fallback rules g') : g = g' := by
  have ht : g.terminals = g'.terminals := Array.toList_inj.mp (h.terminals.unique h'.terminals)
  have hn : g.nonterminals = g'.nonterminals := Array.toList_inj.mp (h.nonterminals.unique h'.nonterminals)
  have hp : g.productions = g'.productions := by
    refine Array.ext_getElem? fun i => ?_
    cases i with
    | zero =>
      obtain ⟨first, p, hfirst, hp, hrenders⟩ := h.start
      obtain ⟨first', p', hfirst', hp', hrenders'⟩ := h'.start
      obtain rfl := Option.some.inj (hfirst.symm.trans hfirst')
      rw [hp, hp', hrenders.unique ht hn h.terminals.nodup h.nonterminals.nodup hrenders']
    | succ i =>
      cases hr : rules[i]? with
      | some r =>
        obtain ⟨p, hp, hrenders⟩ := h.rule i r hr
        obtain ⟨p', hp', hrenders'⟩ := h'.rule i r hr
        rw [hp, hp', hrenders.unique ht hn h.terminals.nodup h.nonterminals.nodup hrenders']
      | none =>
        have hle := List.getElem?_eq_none_iff.mp hr
        have hsize := h.size_eq
        have hsize' := h'.size_eq
        rw [Array.getElem?_eq_none (by omega), Array.getElem?_eq_none (by omega)]
  obtain ⟨_, _, _⟩ := g
  obtain ⟨_, _, _⟩ := g'
  exact Grammar.mk.injEq .. ▸ ⟨ht, hn, hp⟩

end Describe

theorem parse_eq_ok_iff (text : String) :
    ((∃ g, parse text = .ok g) ↔ ∃ rules, Written text rules ∧ Acceptable defaultLabel rules) ∧
      ∀ g, parse text = .ok g ↔
        ∃ rules, Written text rules ∧ Acceptable defaultLabel rules ∧ Describes defaultLabel rules g := by
  have hparse : ∀ g, parse text = .ok g ↔ ∃ rules, Written text rules ∧ ofRules rules = .ok g := by
    intro g
    simp only [← rules_eq_ok]
    constructor
    · exact ok_of_bind
    · rintro ⟨rs, hrs, h⟩
      rw [parse, hrs]
      exact h
  constructor
  · simp only [hparse, ← exists_ofRules_iff]
    constructor
    · rintro ⟨g, rules, hwritten, h⟩
      exact ⟨rules, hwritten, g, h⟩
    · rintro ⟨rules, hwritten, g, h⟩
      exact ⟨g, rules, hwritten, h⟩
  · intro g
    rw [hparse]
    constructor
    · rintro ⟨rules, hwritten, h⟩
      exact ⟨rules, hwritten, exists_ofRules_iff.mp ⟨g, h⟩, ofRules_describes h⟩
    · rintro ⟨rules, hwritten, hacceptable, hdescribes⟩
      obtain ⟨g', h⟩ := exists_ofRules_iff.mpr hacceptable
      exact ⟨rules, hwritten, (ofRules_describes h).unique hdescribes ▸ h⟩

def loweredLabel (left : String) (ordinal : Nat) : String := left.toLower ++ toString ordinal

/-- Only the first letter of a left side is lowered in a label, which keeps these two rules apart. -/
theorem parse_keeps_capitals : (∃ g, parse "AB -> a Ab\nAb -> b" = .ok g) ∧
    ¬ ∃ rules, Written "AB -> a Ab\nAb -> b" rules ∧ Acceptable loweredLabel rules := by
  have hrules : rules "AB -> a Ab\nAb -> b" =
      .ok [⟨1, none, "AB", [.term "a", .nonterm "Ab"]⟩, ⟨2, none, "Ab", [.term "b"]⟩] := by decide +kernel
  constructor
  · refine ⟨⟨#["a", "b", "end"], #["Start", "AB", "Ab"], #[⟨0, "start", 0, 1, [.nonterm 1]⟩,
      ⟨1, "aB1", 1, 1, [.term 0, .nonterm 2]⟩, ⟨2, "ab1", 2, 1, [.term 1]⟩]⟩, ?_⟩
    rw [parse, hrules]
    decide +kernel
  · rintro ⟨rs, hwritten, hacceptable⟩
    rw [← rules_eq_ok, hrules] at hwritten
    have hlabels : rs.mapIdx (labelAt loweredLabel rs) = ["ab1", "ab1"] := by
      rw [← Except.ok.inj hwritten]
      decide +kernel
    have hnodup := hacceptable.labels_nodup
    rw [hlabels] at hnodup
    exact absurd hnodup (by decide)

end Ramify.Grammar
