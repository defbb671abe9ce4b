import Ramify.Proofs.Grammar.Numbering

namespace Ramify

namespace Grammar

variable {rules : List Rule} {g : Grammar}

lemma labelled_nodup {earlier rules : List Rule} {labels : List String} {checked : List (Rule × Nat × String)}
    (h : labelled earlier labels rules = .ok checked) :
    (checked.map (·.2.2)).Nodup ∧ (∀ c ∈ checked, c.2.2 ∉ labels) ∧
      ∀ c ∈ checked, ∀ l, c.1.label = some l → c.2.2 = l := by
  induction rules generalizing earlier labels checked with
  | nil =>
    cases h
    exact ⟨List.nodup_nil, nofun, nofun⟩
  | cons r rules ih =>
    rw [labelled] at h
    obtain ⟨_, h⟩ := ok_of_check h
    obtain ⟨_, h⟩ := ok_of_check h
    obtain ⟨hnew, h⟩ := ok_of_check h
    obtain ⟨rest, hrest, h⟩ := ok_of_bind h
    cases h
    obtain ⟨hnodup, hlabels, hexplicit⟩ := ih hrest
    rw [List.contains_iff_mem] at hnew
    refine ⟨?_, ?_, ?_⟩
    · rw [List.map_cons, List.nodup_cons]
      refine ⟨fun hmem => ?_, hnodup⟩
      obtain ⟨c, hc, he⟩ := List.mem_map.mp hmem
      exact hlabels c hc (he ▸ List.mem_cons_self)
    · refine List.forall_mem_cons.mpr ⟨hnew, fun c hc hmem => hlabels c hc (List.mem_cons_of_mem _ hmem)⟩
    · refine List.forall_mem_cons.mpr ⟨fun l hl => ?_, hexplicit⟩
      dsimp only at hl ⊢
      rw [hl]
      rfl

lemma nodup_distinct (names : List String) : (distinct names).Nodup := by
  have hfold : ∀ (names seen : List String), seen.Nodup →
      (names.foldl (fun seen n => if seen.contains n then seen else n :: seen) seen).Nodup := by
    intro names
    induction names with
    | nil => exact fun _ h => h
    | cons n names ih =>
      intro seen h
      rw [List.foldl_cons]
      split
      · exact ih seen h
      · rename_i hn
        rw [List.contains_iff_mem] at hn
        exact ih _ (List.nodup_cons.mpr ⟨hn, h⟩)
  exact List.nodup_reverse.mpr (hfold names [] List.nodup_nil)

lemma distinct_concat {names : List String} {n : String} (h : n ∉ names) :
    distinct (names ++ [n]) = distinct names ++ [n] := by
  rw [distinct, List.foldl_append, List.foldl_cons, List.foldl_nil, if_neg, List.reverse_cons, ← distinct]
  rw [List.contains_iff_mem, ← List.mem_reverse, ← distinct, mem_distinct]
  exact h

def terminalNames (rules : List Rule) : List String := distinct (rules.flatMap Rule.terminals ++ [endName])

def nonterminalNames (rules : List Rule) : List String := distinct (startName :: rules.flatMap Rule.nonterminals)

def Named (rules : List Rule) : NamedSymbol → Prop
  | .term t => t ∈ terminalNames rules
  | .nonterm n => n ∈ nonterminalNames rules

def numberOf (rules : List Rule) : NamedSymbol → Symbol := numbered (terminalNames rules) (nonterminalNames rules)

lemma numberOf_inj {x y : NamedSymbol} (hx : Named rules x) (hy : Named rules y)
    (h : numberOf rules x = numberOf rules y) : x = y := by
  cases x with
  | term t =>
    cases y with
    | term t' => exact congrArg NamedSymbol.term ((List.idxOf_inj hx).mp (Symbol.term.inj h))
    | nonterm n => cases h
  | nonterm n =>
    cases y with
    | term t => cases h
    | nonterm n' => exact congrArg NamedSymbol.nonterm ((List.idxOf_inj hx).mp (Symbol.nonterm.inj h))

lemma numberOf_term {t : Nat} {name : String} (h : (terminalNames rules)[t]? = some name) :
    numberOf rules (.term name) = .term t := by
  obtain ⟨hlt, rfl⟩ := List.getElem?_eq_some_iff.mp h
  exact congrArg Symbol.term ((nodup_distinct _).idxOf_getElem t hlt)

lemma named_start : Named rules (.nonterm startName) := mem_distinct.mpr List.mem_cons_self

lemma numberOf_start : numberOf rules (.nonterm startName) = .nonterm 0 := by
  obtain ⟨names, hnames⟩ : ∃ names, nonterminalNames rules = startName :: names := by
    have hzero := getElem?_distinct_zero startName (rules.flatMap Rule.nonterminals)
    rw [← List.head?_eq_getElem?] at hzero
    exact ⟨_, (List.cons_head?_tail hzero).symm⟩
  rw [numberOf, numbered, hnames, List.idxOf_cons_self]

lemma named_left {r : Rule} (hr : r ∈ rules) : Named rules (.nonterm r.left) :=
  mem_distinct.mpr (List.mem_cons_of_mem _ (List.mem_flatMap.mpr ⟨r, hr, List.mem_cons_self⟩))

lemma named_right {r : Rule} (hr : r ∈ rules) {x : NamedSymbol} (hx : x ∈ r.right) : Named rules x := by
  cases x with
  | term t =>
    refine mem_distinct.mpr (List.mem_append_left _ (List.mem_flatMap.mpr ⟨r, hr, ?_⟩))
    exact List.mem_filterMap.mpr ⟨_, hx, rfl⟩
  | nonterm n =>
    refine mem_distinct.mpr (List.mem_cons_of_mem _ (List.mem_flatMap.mpr ⟨r, hr, ?_⟩))
    exact List.mem_cons_of_mem _ (List.mem_filterMap.mpr ⟨_, hx, rfl⟩)

lemma labelled_end {earlier rules : List Rule} {labels : List String} {checked : List (Rule × Nat × String)}
    (h : labelled earlier labels rules = .ok checked) : ∀ r ∈ rules, .term endName ∉ r.right := by
  induction rules generalizing earlier labels checked with
  | nil => exact nofun
  | cons r rules ih =>
    rw [labelled] at h
    obtain ⟨_, h⟩ := ok_of_check h
    obtain ⟨hend, h⟩ := ok_of_check h
    obtain ⟨_, h⟩ := ok_of_check h
    obtain ⟨rest, hrest, _⟩ := ok_of_bind h
    rw [List.contains_iff_mem] at hend
    exact List.forall_mem_cons.mpr ⟨hend, ih hrest⟩

lemma end_notMem_terminals (h : ∀ r ∈ rules, .term endName ∉ r.right) : endName ∉ rules.flatMap Rule.terminals := by
  intro hmem
  obtain ⟨r, hr, hmem⟩ := List.mem_flatMap.mp hmem
  obtain ⟨x, hx, hname⟩ := List.mem_filterMap.mp hmem
  cases x with
  | term t => exact h r hr (Option.some.inj hname ▸ hx)
  | nonterm n => cases hname

lemma decapitalize_ofList (c : Char) (l : List Char) :
    (String.ofList (c :: l)).decapitalize = String.ofList (c.toLower :: l) := by
  simp only [String.decapitalize, String.Pos.Raw.set, String.Pos.Raw.get, String.toList_ofList]
  rfl

def labelsAfter (earlier : List Rule) : List Rule → List String
  | [] => []
  | r :: rules =>
    r.label.getD (defaultLabel r.left (countLeft r.left earlier + 1)) :: labelsAfter (r :: earlier) rules

lemma labelled_ok {earlier rules : List Rule} (labels : List String)
    (hnames : ∀ r ∈ rules, r.left ≠ startName ∧ .term endName ∉ r.right)
    (hnodup : (labelsAfter earlier rules).Nodup) (hnew : ∀ l ∈ labelsAfter earlier rules, l ∉ labels) :
    ∃ checked, labelled earlier labels rules = .ok checked := by
  induction rules generalizing earlier labels with
  | nil => exact ⟨[], rfl⟩
  | cons r rules ih =>
    rw [List.forall_mem_cons] at hnames
    rw [labelsAfter, List.nodup_cons] at hnodup
    rw [labelsAfter, List.forall_mem_cons] at hnew
    set label := r.label.getD (defaultLabel r.left (countLeft r.left earlier + 1))
    obtain ⟨checked, hchecked⟩ := ih (label :: labels) hnames.2 hnodup.2 fun l hl hmem => by
      rcases List.mem_cons.mp hmem with rfl | hmem
      · exact hnodup.1 hl
      · exact hnew.2 l hl hmem
    refine ⟨(r, countLeft r.left earlier + 1, label) :: checked, ?_⟩
    rw [labelled, if_neg hnames.1.1, if_neg (by rw [List.contains_iff_mem]; exact hnames.1.2)]
    dsimp only [bind, Except.bind, pure, Except.pure]
    rw [if_neg (by rw [List.contains_iff_mem]; exact hnew.1), hchecked]

lemma ofRules_ok (hne : rules ≠ []) (hnames : ∀ r ∈ rules, r.left ≠ startName ∧ .term endName ∉ r.right)
    (hdefined : ∀ r ∈ rules, ∀ n, .nonterm n ∈ r.right → n ≠ startName → n ∈ rules.map Rule.left)
    (hlabels : (startLabel :: labelsAfter [] rules).Nodup) : ∃ g, ofRules rules = .ok g := by
  obtain ⟨first, rest, rfl⟩ := List.exists_cons_of_ne_nil hne
  rw [List.nodup_cons] at hlabels
  obtain ⟨checked, hchecked⟩ := labelled_ok [startLabel] hnames hlabels.2 fun l hl hmem =>
    hlabels.1 (List.mem_singleton.mp hmem ▸ hl)
  have hundefined : (distinct (startName :: (first :: rest).flatMap Rule.nonterminals)).filter
      (fun n => n != startName && !(first :: rest).any (·.left == n)) = [] := by
    rw [List.filter_eq_nil_iff]
    intro n hn hcond
    rw [Bool.and_eq_true, bne_iff_ne, Bool.not_eq_true', List.any_eq_false] at hcond
    rcases List.mem_cons.mp (mem_distinct.mp hn) with rfl | hmem
    · exact hcond.1 rfl
    · obtain ⟨r, hr, hmem⟩ := List.mem_flatMap.mp hmem
      have hleft : n ∈ (first :: rest).map Rule.left := by
        rcases List.mem_cons.mp hmem with rfl | hmem
        · exact List.mem_map_of_mem hr
        · obtain ⟨x, hx, he⟩ := List.mem_filterMap.mp hmem
          cases x with
          | term t => cases he
          | nonterm m => exact hdefined r hr n (Option.some.inj he ▸ hx) hcond.1
      obtain ⟨r', hr', he⟩ := List.mem_map.mp hleft
      exact hcond.2 r' hr' (beq_iff_eq.mpr he)
  rw [ofRules]
  dsimp only
  rw [if_neg (hnames first List.mem_cons_self).1, hchecked]
  dsimp only [bind, Except.bind, pure, Except.pure]
  rw [if_neg (not_not_intro hundefined)]
  exact ⟨_, rfl⟩

section OfRules

variable (h : ofRules rules = .ok g)

include h

lemma ofRules_terminals : g.terminals = (terminalNames rules).toArray := by
  obtain ⟨_, _, _, _, _, _, ht, _, _⟩ := ofRules_eq h
  exact ht

lemma ofRules_terminals_nodup : g.terminals.toList.Nodup := by
  rw [ofRules_terminals h]
  exact nodup_distinct _

lemma ofRules_nonterminals : g.nonterminals = (nonterminalNames rules).toArray := by
  obtain ⟨_, _, _, _, _, _, _, hn, _⟩ := ofRules_eq h
  exact hn

lemma ofRules_nonterminals_nodup : g.nonterminals.toList.Nodup := by
  rw [ofRules_nonterminals h]
  exact nodup_distinct _

lemma ofRules_nonterminal {n : String} (hn : Named rules (.nonterm n)) {i : Nat}
    (hi : .nonterm i = numberOf rules (.nonterm n)) : g.nonterminals[i]? = some n := by
  rw [ofRules_nonterminals h, Symbol.nonterm.inj hi, List.getElem?_toArray]
  exact List.getElem?_idxOf hn

lemma ofRules_labels_nodup : (g.productions.toList.map Production.label).Nodup := by
  obtain ⟨first, rest, checked, hrules, _, hchecked, _, _, hp⟩ := ofRules_eq h
  obtain ⟨hnodup, hnew, _⟩ := labelled_nodup hchecked
  have hlabels : g.productions.toList.map Production.label = startLabel :: checked.map (·.2.2) := by
    rw [hp, List.map_cons, List.map_map]
    refine congrArg _ ?_
    conv_rhs => rw [← List.zipIdx_map_fst 0 checked, List.map_map]
    rfl
  rw [hlabels, List.nodup_cons]
  refine ⟨fun hmem => ?_, hnodup⟩
  obtain ⟨c, hc, he⟩ := List.mem_map.mp hmem
  exact hnew c hc (he ▸ List.mem_cons_self)

lemma ofRules_label_inj {i j : Nat} {p q : Production} (hp : g.productions[i]? = some p)
    (hq : g.productions[j]? = some q) (hlabel : p.label = q.label) : i = j := by
  refine (List.getElem?_inj ?_ (ofRules_labels_nodup h)).mp ?_
  · rw [List.length_map, Array.length_toList]
    exact (Array.getElem?_eq_some_iff.mp hp).1
  · rw [List.getElem?_map, List.getElem?_map, Array.getElem?_toList, Array.getElem?_toList, hp, hq,
      Option.map_some, Option.map_some, hlabel]

lemma ofRules_production {i : Nat} {r : Rule} (hr : rules[i]? = some r) :
    ∃ p, g.productions[i + 1]? = some p ∧ .nonterm p.lhs = numberOf rules (.nonterm r.left) ∧
      p.rhs = r.right.map (numberOf rules) ∧ ∀ l, r.label = some l → p.label = l := by
  obtain ⟨first, rest, checked, _, _, hchecked, _, _, hp⟩ := ofRules_eq h
  obtain ⟨c, hc, rfl⟩ : ∃ c, checked[i]? = some c ∧ c.1 = r := by
    rwa [← labelled_rules hchecked, List.getElem?_map, Option.map_eq_some_iff] at hr
  refine ⟨productionOf _ _ i c, ?_, rfl, rfl, fun l hl => ?_⟩
  · rw [hp, List.getElem?_toArray, List.getElem?_cons_succ, List.getElem?_map, List.getElem?_zipIdx, hc,
      Nat.zero_add]
    rfl
  · exact (labelled_nodup hchecked).2.2 c (List.mem_of_getElem? hc) l hl

lemma ofRules_rule {i : Nat} {p : Production} (hp : g.productions[i + 1]? = some p) :
    ∃ r, rules[i]? = some r := by
  obtain ⟨first, rest, checked, _, _, hchecked, _, _, heq⟩ := ofRules_eq h
  rw [heq, List.getElem?_toArray, List.getElem?_cons_succ, List.getElem?_map, List.getElem?_zipIdx] at hp
  obtain ⟨⟨c, j⟩, hc, _⟩ := Option.map_eq_some_iff.mp hp
  obtain ⟨c, hc, _⟩ := Option.map_eq_some_iff.mp hc
  refine ⟨c.1, ?_⟩
  rw [← labelled_rules hchecked, List.getElem?_map, hc]
  rfl

lemma ofRules_endTerminal : g.endTerminal = (terminalNames rules).idxOf endName := by
  obtain ⟨_, _, checked, _, _, hchecked, ht, _, _⟩ := ofRules_eq h
  have hterminals := end_notMem_terminals (labelled_end hchecked)
  rw [endTerminal, ht, List.size_toArray, terminalNames, distinct_concat hterminals, List.length_append,
    List.idxOf_append_of_notMem (fun hmem => hterminals (mem_distinct.mp hmem)), List.idxOf_cons_self]
  rfl

lemma ofRules_end_notMem : ∀ p ∈ g.productions, Symbol.term g.endTerminal ∉ p.rhs := by
  have hlast := ofRules_endTerminal h
  obtain ⟨_, _, checked, _, _, hchecked, _, _, hp⟩ := ofRules_eq h
  intro p hmem hs
  rw [hp, List.mem_toArray, List.mem_cons, List.mem_map] at hmem
  rcases hmem with rfl | ⟨⟨c, i⟩, hc, rfl⟩
  · cases List.mem_singleton.mp hs
  · have hr : c.1 ∈ rules := labelled_rules hchecked ▸ List.mem_map_of_mem (List.fst_mem_of_mem_zipIdx hc)
    obtain ⟨x, hx, hnumber⟩ := List.mem_map.mp hs
    rw [hlast] at hnumber
    have hname : Named rules (.term endName) :=
      mem_distinct.mpr (List.mem_append_right _ (List.mem_singleton_self _))
    exact labelled_end hchecked c.1 hr (numberOf_inj (named_right hr hx) hname hnumber ▸ hx)

end OfRules

end Grammar

end Ramify
