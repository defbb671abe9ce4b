import Ramify.C.Rules
import Ramify.Proofs.Grammar.Names
import Ramify.Proofs.Parse.Stacks

namespace Ramify

namespace C

lemma TokenKind.all_rank (kind : TokenKind) : all[kind.rank]? = some kind := by
  cases kind with
  | keyword k => cases k <;> rfl
  | punctuator p => cases p <;> rfl
  | _ => rfl

namespace Rules

lemma listed : (Category.names.map Prod.fst).Nodup ∧ (Role.labels.map Prod.fst).Nodup ∧
    (∀ l ∈ Role.labels.map Prod.fst, ∃ r ∈ rules, r.label = some l) ∧
    (∀ c ∈ Category.names.map Prod.fst, ∃ r ∈ rules, r.left = c) ∧
    ∀ r ∈ rules, .term Grammar.endName ∉ r.right ∧ .nonterm Grammar.startName ∉ r.right ∧
      r.left ≠ Grammar.startName ∧ r.right ≠ [] := by
  decide +kernel

lemma names_nodup : (Category.names.map Prod.fst).Nodup := listed.1

lemma labels_nodup : (Role.labels.map Prod.fst).Nodup := listed.2.1

lemma roles_explicit : ∀ l ∈ Role.labels.map Prod.fst, ∃ r ∈ rules, r.label = some l := listed.2.2.1

lemma categories_left : ∀ c ∈ Category.names.map Prod.fst, ∃ r ∈ rules, r.left = c := listed.2.2.2.1

lemma sides : ∀ r ∈ rules, .term Grammar.endName ∉ r.right ∧ .nonterm Grammar.startName ∉ r.right ∧
    r.left ≠ Grammar.startName ∧ r.right ≠ [] := listed.2.2.2.2

end Rules

namespace Vocabulary

section Assign

variable {α : Type} {place : String → Except MissingPart Nat} {names : List String}

lemma assign_cons {entry : String × α} {rest : List (String × α)} {values out : Array α}
    (h : assign place (entry :: rest) values = .ok out) :
    ∃ k, ∃ hk : k < values.size, place entry.1 = .ok k ∧ assign place rest (values.set k entry.2 hk) = .ok out := by
  rw [assign] at h
  split at h
  · cases h
  · rename_i k hplace
    split at h
    · rename_i hk
      exact ⟨k, hk, hplace, h⟩
    · cases h

lemma assign_size {entries : List (String × α)} {values out : Array α} (h : assign place entries values = .ok out) :
    out.size = values.size := by
  induction entries generalizing values with
  | nil => exact Except.ok.inj h ▸ rfl
  | cons entry rest ih =>
    obtain ⟨k, hk, -, h⟩ := assign_cons h
    rw [ih h, Array.size_set]

lemma assign_getElem? (hnames : names.Nodup) (hplace : ∀ name k, place name = .ok k → names[k]? = some name)
    {entries : List (String × α)} {values out : Array α} (h : assign place entries values = .ok out)
    (hkeys : (entries.map Prod.fst).Nodup) {n : Nat} {key : String} (hn : names[n]? = some key) :
    out[n]? = values[n]?.map ((entries.lookup key).getD ·) := by
  induction entries generalizing values with
  | nil =>
    cases h
    simp
  | cons entry rest ih =>
    obtain ⟨k, hk, hname, h⟩ := assign_cons h
    obtain ⟨name, a⟩ := entry
    rw [List.map_cons, List.nodup_cons] at hkeys
    rw [ih h hkeys.2, List.lookup_cons]
    have hname := hplace name k hname
    by_cases he : key = name
    · obtain rfl : n = k := (List.getElem?_inj (List.getElem?_eq_some_iff.mp hn).1 hnames).mp
        (hn.trans (he ▸ hname.symm))
      rw [he, BEq.rfl, List.lookup_eq_none_iff.mpr]
      · simp [hk]
      · intro entry hmem
        have hne : name ≠ entry.1 := fun h =>
          hkeys.1 (List.mem_map.mpr ⟨entry, hmem, h.symm⟩)
        simpa using hne
    · have hne : k ≠ n := by
        rintro rfl
        exact he (Option.some.inj (hn.symm.trans hname))
      rw [beq_false_of_ne he, Array.getElem?_set_ne hk hne]

lemma assign_ok {entries : List (String × α)} (values : Array α)
    (h : ∀ name ∈ entries.map Prod.fst, ∃ k < values.size, place name = .ok k) :
    ∃ out, assign place entries values = .ok out := by
  induction entries generalizing values with
  | nil => exact ⟨values, rfl⟩
  | cons entry rest ih =>
    rw [List.map_cons, List.forall_mem_cons] at h
    obtain ⟨⟨k, hlt, hk⟩, h⟩ := h
    rw [assign, hk]
    dsimp only
    rw [dif_pos hlt]
    exact ih _ (by simpa only [Array.size_set] using h)

end Assign

variable {T : Table} {V : Vocabulary}

lemma ofTable_eq (h : ofTable T = .ok V) : ∃ roles categories,
    assign (rolePlace T) Role.labels (Array.replicate T.productions.size .other) = .ok roles ∧
    assign (categoryPlace T) Category.names (Array.replicate T.nonterminals.size .other) = .ok categories ∧
    V = ⟨T, (TokenKind.all.map (terminalOf T)).toArray, roles, categories⟩ := by
  rw [ofTable] at h
  obtain ⟨roles, hroles, h⟩ := Grammar.ok_of_bind h
  obtain ⟨categories, hcategories, h⟩ := Grammar.ok_of_bind h
  exact ⟨roles, categories, hroles, hcategories, (Except.ok.inj h).symm⟩

lemma ofTable_terminal? (h : ofTable T = .ok V) (kind : TokenKind) : V.terminal? kind = terminalOf T kind := by
  obtain ⟨_, _, _, _, rfl⟩ := ofTable_eq h
  simp [terminal?, TokenKind.all_rank]

lemma ofTable_roles_size (h : ofTable T = .ok V) : V.roles.size = V.table.productions.size := by
  obtain ⟨_, _, hroles, _, rfl⟩ := ofTable_eq h
  rw [assign_size hroles, Array.size_replicate]

lemma ofTable_covers (h : ofTable T = .ok V) {index : Nat} {p : Production} (hp : T.productions[index]? = some p)
    (hlhs : p.lhs < T.nonterminals.size) : V.Covers index := by
  have hr := ofTable_roles_size h
  obtain ⟨_, _, _, hcategories, rfl⟩ := ofTable_eq h
  have hlt := (Array.getElem?_eq_some_iff.mp hp).1
  have hc := assign_size hcategories
  rw [Array.size_replicate] at hc
  constructor
  · rw [role?, isSome_getElem?, hr]
    exact hlt
  · rw [category?, hp, Option.bind_some, isSome_getElem?]
    exact hc ▸ hlhs

lemma ofTable_nonterminal (h : ofTable T = .ok V) (hnames : T.nonterminals.toList.Nodup) {n : Nat} {name : String}
    (hn : T.nonterminals[n]? = some name) :
    V.categories[n]? = some ((Category.names.lookup name).getD .other) := by
  obtain ⟨_, categories, _, hcategories, rfl⟩ := ofTable_eq h
  have hplace : ∀ name k, categoryPlace T name = .ok k → T.nonterminals.toList[k]? = some name := by
    intro name k hk
    rw [categoryPlace] at hk
    split at hk <;> cases hk
    rename_i hfind
    rw [Table.nonterminal?, Array.findIdx?_eq_some_iff_getElem] at hfind
    obtain ⟨hlt, hname, _⟩ := hfind
    rw [Array.getElem?_toList, Array.getElem?_eq_getElem hlt, eq_of_beq hname]
  have hlt := (Array.getElem?_eq_some_iff.mp hn).1
  rw [assign_getElem? hnames hplace hcategories Rules.names_nodup (by rwa [Array.getElem?_toList])]
  simp [hlt]

lemma ofTable_category (h : ofTable T = .ok V) (hnames : T.nonterminals.toList.Nodup) {index : Nat}
    {p : Production} (hp : T.productions[index]? = some p) {left : String}
    (hleft : T.nonterminals[p.lhs]? = some left) : V.category index = (Category.names.lookup left).getD .other := by
  have hcategory := ofTable_nonterminal h hnames hleft
  obtain ⟨_, _, _, _, rfl⟩ := ofTable_eq h
  rw [category, category?, hp, Option.bind_some, hcategory, Option.getD_some]

lemma ofTable_role (h : ofTable T = .ok V) (hlabels : (T.productions.toList.map Production.label).Nodup)
    (hindex : ∀ (i : Nat) (p : Production), T.productions[i]? = some p → p.index = i) {index : Nat} {p : Production}
    (hp : T.productions[index]? = some p) : V.role index = (Role.labels.lookup p.label).getD .other := by
  obtain ⟨roles, _, hroles, _, rfl⟩ := ofTable_eq h
  have hplace : ∀ label k, rolePlace T label = .ok k →
      (T.productions.toList.map Production.label)[k]? = some label := by
    intro label k hk
    rw [rolePlace] at hk
    split at hk <;> cases hk
    rename_i q hfind
    obtain ⟨i, hi⟩ := Array.mem_iff_getElem?.mp (Array.mem_of_find?_eq_some hfind)
    rw [List.getElem?_map, Array.getElem?_toList, hindex i q hi, hi, Option.map_some]
    rw [Table.production?] at hfind
    have hlabel := Array.find?_some hfind
    rw [eq_of_beq hlabel]
  have hlt := (Array.getElem?_eq_some_iff.mp hp).1
  have hlabel : (T.productions.toList.map Production.label)[index]? = some p.label := by
    rw [List.getElem?_map, Array.getElem?_toList, hp]
    rfl
  rw [role, role?, assign_getElem? hlabels hplace hroles Rules.labels_nodup hlabel]
  simp [hlt]

end Vocabulary

namespace Rules

def roleOf (r : Rule) : Role := (r.label.bind fun l => Role.labels.lookup l).getD .other

def categoryOf (left : String) : Category := (Category.names.lookup left).getD .other

def Occurs (x : NamedSymbol) : Prop := ∃ r ∈ rules, x = .nonterm r.left ∨ x ∈ r.right

lemma Occurs.named {x : NamedSymbol} (h : Occurs x) : Grammar.Named rules x := by
  obtain ⟨r, hr, rfl | hx⟩ := h
  · exact Grammar.named_left hr
  · exact Grammar.named_right hr hx

lemma Occurs.ne_start {x : NamedSymbol} (h : Occurs x) : x ≠ .nonterm Grammar.startName := by
  obtain ⟨r, hr, rfl | hx⟩ := h
  · exact fun he => (sides r hr).2.2.1 (NamedSymbol.nonterm.inj he)
  · exact fun he => (sides r hr).2.1 (he ▸ hx)

end Rules

structure Vocabulary.Standard (V : Vocabulary) (g : Grammar) : Prop where
  grammar_eq : grammar = .ok g
  table : Vocabulary.ofTable (LR.Construction.ofGrammar preferShift g).table = .ok V

lemma toOption_eq_some {ε α : Type} {x : Except ε α} {a : α} (h : x.toOption = some a) : x = .ok a := by
  cases x with
  | error e => cases h
  | ok b => exact congrArg _ (Option.some.inj h)

lemma standard_eq {V : Vocabulary} (h : standard = some V) : ∃ g, V.Standard g := by
  obtain ⟨K, hK, hV⟩ := Option.bind_eq_some_iff.mp h
  obtain ⟨g, hg, rfl⟩ := Grammar.map_eq_ok (toOption_eq_some hK)
  exact ⟨g, hg, toOption_eq_some hV⟩

lemma exists_standard {g : Grammar} (h : grammar = .ok g) : ∃ V, standard = some V ∧ V.Standard g := by
  set T := (LR.Construction.ofGrammar preferShift g).table with hT
  have hroles : ∀ label ∈ Role.labels.map Prod.fst,
      ∃ k < (Array.replicate T.productions.size Role.other).size, Vocabulary.rolePlace T label = .ok k := by
    intro label hl
    obtain ⟨r, hr, hlabel⟩ := Rules.roles_explicit label hl
    obtain ⟨i, hi⟩ := List.mem_iff_getElem?.mp hr
    obtain ⟨p, hp, _, _, hp'⟩ := Grammar.ofRules_production h hi
    have hfind : (T.production? label).isSome := by
      rw [Table.production?, Array.find?_isSome]
      exact ⟨p, Array.mem_of_getElem? hp, beq_iff_eq.mpr (hp' label hlabel)⟩
    obtain ⟨q, hq⟩ := Option.isSome_iff_exists.mp hfind
    refine ⟨q.index, ?_, by rw [Vocabulary.rolePlace, hq]⟩
    obtain ⟨j, hj⟩ := Array.mem_iff_getElem?.mp (Array.mem_of_find?_eq_some hq)
    rw [Array.size_replicate, (Grammar.ofRules_wellNumbered h).index_eq j q hj]
    exact (Array.getElem?_eq_some_iff.mp hj).1
  have hcategories : ∀ name ∈ Category.names.map Prod.fst,
      ∃ k < (Array.replicate T.nonterminals.size Category.other).size, Vocabulary.categoryPlace T name = .ok k := by
    intro name hn
    obtain ⟨r, hr, rfl⟩ := Rules.categories_left name hn
    have hmem : r.left ∈ T.nonterminals := by
      change r.left ∈ g.nonterminals
      rw [Grammar.ofRules_nonterminals h, List.mem_toArray]
      exact Grammar.named_left hr
    have hfind : (T.nonterminal? r.left).isSome := by
      rw [Table.nonterminal?, Array.findIdx?_isSome, Array.any_eq_true']
      exact ⟨r.left, hmem, beq_self_eq_true _⟩
    obtain ⟨k, hk⟩ := Option.isSome_iff_exists.mp hfind
    refine ⟨k, ?_, by rw [Vocabulary.categoryPlace, hk]⟩
    rw [Array.size_replicate]
    exact (Array.findIdx?_eq_some_iff_getElem.mp hk).1
  obtain ⟨roles, hr⟩ := Vocabulary.assign_ok _ hroles
  obtain ⟨categories, hc⟩ := Vocabulary.assign_ok _ hcategories
  have hV : Vocabulary.ofTable T =
      .ok ⟨T, (TokenKind.all.map (Vocabulary.terminalOf T)).toArray, roles, categories⟩ := by
    rw [Vocabulary.ofTable, hr]
    change (Vocabulary.assign _ _ _ >>= _) = _
    rw [hc]
    rfl
  refine ⟨_, ?_, h, hV⟩
  have hK : construction = .ok (LR.Construction.ofGrammar preferShift g) := by
    unfold construction
    rw [h]
    rfl
  unfold standard
  rw [hK]
  exact congrArg Except.toOption hV

namespace Vocabulary.Standard

open Rules

variable {V : Vocabulary} {g : Grammar} (h : V.Standard g)

include h

lemma numbered : g.WellNumbered := Grammar.ofRules_wellNumbered h.grammar_eq

lemma table_eq : V.table = (LR.Construction.ofGrammar preferShift g).table := by
  obtain ⟨_, _, _, _, rfl⟩ := ofTable_eq h.table
  rfl

lemma productions_eq : V.table.productions = g.productions := by
  rw [h.table_eq]
  rfl

lemma covers_production {i : Nat} {p : Production} (hp : V.table.productions[i]? = some p) : V.Covers i := by
  rw [h.table_eq] at hp
  exact ofTable_covers h.table hp (h.numbered.lhs_lt p (Array.mem_of_getElem? hp))

lemma covers_rule {i : Nat} {r : Rule} (hr : rules[i]? = some r) : V.Covers (i + 1) := by
  obtain ⟨p, hp, _⟩ := Grammar.ofRules_production h.grammar_eq hr
  exact h.covers_production (h.productions_eq ▸ hp)

lemma category_eq {i : Nat} {r : Rule} (hr : rules[i]? = some r) : V.category (i + 1) = categoryOf r.left := by
  obtain ⟨p, hp, hlhs, _⟩ := Grammar.ofRules_production h.grammar_eq hr
  have hp' : (LR.Construction.ofGrammar preferShift g).table.productions[i + 1]? = some p := hp
  exact ofTable_category h.table (Grammar.ofRules_nonterminals_nodup h.grammar_eq) hp'
    (Grammar.ofRules_nonterminal h.grammar_eq (Grammar.named_left (List.mem_of_getElem? hr)) hlhs)

lemma lookup_role {i : Nat} {p : Production} (hp : g.productions[i]? = some p)
    (hrule : ∀ j r, rules[j]? = some r → i = j + 1 → r.label = none) : Role.labels.lookup p.label = none := by
  refine List.lookup_eq_none_iff.mpr fun entry hmem => bne_iff_ne.mpr fun he => ?_
  obtain ⟨r, hr, hl⟩ := roles_explicit _ (List.mem_map_of_mem hmem)
  obtain ⟨j, hj⟩ := List.mem_iff_getElem?.mp hr
  obtain ⟨p', hp', _, _, hlabel⟩ := Grammar.ofRules_production h.grammar_eq hj
  have hi := Grammar.ofRules_label_inj h.grammar_eq hp hp' (he.trans (hlabel _ hl).symm)
  rw [hrule j r hj hi] at hl
  cases hl

lemma role_eq {i : Nat} {r : Rule} (hr : rules[i]? = some r) : V.role (i + 1) = roleOf r := by
  obtain ⟨p, hp, _, _, hlabel⟩ := Grammar.ofRules_production h.grammar_eq hr
  rw [ofTable_role h.table (Grammar.ofRules_labels_nodup h.grammar_eq) h.numbered.index_eq hp, roleOf]
  cases hl : r.label with
  | some l => rw [hlabel l hl, Option.bind_some]
  | none =>
    rw [h.lookup_role hp]
    · rfl
    · intro j r' hj hi
      obtain rfl := Nat.succ_injective hi
      obtain rfl := Option.some.inj (hr.symm.trans hj)
      exact hl

lemma production?_label {i : Nat} {p : Production} (hp : g.productions[i]? = some p) :
    V.table.production? p.label = some p := by
  rw [Table.production?, h.productions_eq]
  have hfind : (g.productions.find? (·.label == p.label)).isSome := by
    rw [Array.find?_isSome]
    exact ⟨p, Array.mem_of_getElem? hp, beq_self_eq_true _⟩
  obtain ⟨q, hq⟩ := Option.isSome_iff_exists.mp hfind
  obtain ⟨j, hj⟩ := Array.mem_iff_getElem?.mp (Array.mem_of_find?_eq_some hq)
  have hlabel := Array.find?_some hq
  obtain rfl := Grammar.ofRules_label_inj h.grammar_eq hj hp (eq_of_beq hlabel)
  rw [hq, ← hj, hp]

lemma production_cases {p : Production} (hp : p ∈ g.productions) :
    (∃ first ∈ rules, p.rhs = [Grammar.numberOf rules (.nonterm first.left)]) ∨
      ∃ r ∈ rules, p.rhs = r.right.map (Grammar.numberOf rules) := by
  obtain ⟨i, hi⟩ := Array.mem_iff_getElem?.mp hp
  cases i with
  | zero =>
    obtain ⟨start, first, hstart, hfirst, _, hrhs, _⟩ := h.numbered.start
    obtain rfl := Option.some.inj (hi.symm.trans hstart)
    obtain ⟨r, hr⟩ := Grammar.ofRules_rule h.grammar_eq hfirst
    obtain ⟨p', hp', hlhs, _⟩ := Grammar.ofRules_production h.grammar_eq hr
    obtain rfl := Option.some.inj (hfirst.symm.trans hp')
    exact Or.inl ⟨r, List.mem_of_getElem? hr, by rw [hrhs, hlhs]⟩
  | succ i =>
    obtain ⟨r, hr⟩ := Grammar.ofRules_rule h.grammar_eq hi
    obtain ⟨p', hp', _, hrhs, _⟩ := Grammar.ofRules_production h.grammar_eq hr
    obtain rfl := Option.some.inj (hi.symm.trans hp')
    exact Or.inr ⟨r, List.mem_of_getElem? hr, hrhs⟩

lemma rhs_ne_nil {p : Production} (hp : p ∈ g.productions) : p.rhs ≠ [] := by
  obtain ⟨first, _, hrhs⟩ | ⟨r, hr, hrhs⟩ := h.production_cases hp
  · exact hrhs ▸ List.cons_ne_nil _ _
  · rw [hrhs, Ne, List.map_eq_nil_iff]
    exact (sides r hr).2.2.2

lemma isolated : ∀ p ∈ g.productions, Symbol.nonterm 0 ∉ p.rhs := by
  intro p hp hmem
  obtain ⟨x, hx, hnumber⟩ : ∃ x, Occurs x ∧ Grammar.numberOf rules x = .nonterm 0 := by
    obtain ⟨first, hfirst, hrhs⟩ | ⟨r, hr, hrhs⟩ := h.production_cases hp
    · rw [hrhs, List.mem_singleton] at hmem
      exact ⟨_, ⟨first, hfirst, Or.inl rfl⟩, hmem.symm⟩
    · rw [hrhs] at hmem
      obtain ⟨x, hx, hnumber⟩ := List.mem_map.mp hmem
      exact ⟨x, ⟨r, hr, Or.inr hx⟩, hnumber⟩
  rw [← Grammar.numberOf_start] at hnumber
  exact hx.ne_start (Grammar.numberOf_inj hx.named Grammar.named_start hnumber)

lemma first_eq {first : Production} (hfirst : g.productions[1]? = some first) :
    .nonterm first.lhs = Grammar.numberOf rules (.nonterm "TranslationUnit") := by
  have hr : rules[0]? = some ⟨1, none, "TranslationUnit", [.nonterm "ExternalDeclaration"]⟩ := rfl
  obtain ⟨p, hp, hlhs, _⟩ := Grammar.ofRules_production h.grammar_eq hr
  obtain rfl := Option.some.inj (hfirst.symm.trans hp)
  exact hlhs

lemma terminal_name {kind : TokenKind} {t : Nat} (ht : V.terminal? kind = some t) :
    (Grammar.terminalNames rules)[t]? = some kind.terminal := by
  have hterminals := Grammar.ofRules_terminals h.grammar_eq
  rw [ofTable_terminal? h.table, terminalOf] at ht
  split at ht
  · rename_i hend
    have hnew : Grammar.endName ∉ rules.flatMap Grammar.Rule.terminals := by
      intro hmem
      obtain ⟨r, hr, hmem⟩ := List.mem_flatMap.mp hmem
      obtain ⟨x, hx, he⟩ := List.mem_filterMap.mp hmem
      cases x with
      | term name =>
        obtain rfl := Option.some.inj he
        exact (sides r hr).1 hx
      | nonterm name => cases he
    have hlast : t = g.terminals.size - 1 := (Option.some.inj ht).symm
    rw [hlast, hterminals, Grammar.terminalNames, Grammar.distinct_concat hnew, List.size_toArray, hend]
    simp [TokenKind.terminal, Grammar.endName]
  · change g.terminals.findIdx? _ = _ at ht
    rw [Array.findIdx?_eq_some_iff_getElem] at ht
    obtain ⟨hlt, hname, _⟩ := ht
    rw [← eq_of_beq hname, ← Array.getElem?_eq_getElem hlt, hterminals, List.getElem?_toArray]

end Vocabulary.Standard

end C

end Ramify
