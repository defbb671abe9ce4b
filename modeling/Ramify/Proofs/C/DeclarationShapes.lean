import Ramify.Proofs.C.RuleShapes

namespace Ramify.C

namespace Category

def isDeclarator : Category → Bool
  | declarator | directDeclarator => true
  | _ => false

def gathers : Category → Bool
  | initDeclaratorList | initDeclarator | declaratorInit | parameterTypeList | parameterList
  | parameterDeclaration => true
  | _ => false

def isSpecifiers : Category → Bool
  | declarationSpecifiers | specifierQualifierList => true
  | _ => false

end Category

structure Shaped (role : Role) (category : Category) (sorts : List (Option Category)) : Prop where
  name : role = .declaratorName → category = .directDeclarator ∧ sorts = [none]
  storage : role = .typedefStorage → category = .other ∧ sorts = [none]
  namedType : role = .namedType → category = .typeSpecifier
  suffix : role = .functionDeclarator → sorts.count (some .parameterTypeList) = 1
  inner : category.isDeclarator → role ≠ .declaratorName → sorts.countP (·.any Category.isDeclarator) = 1
  own : category.isDeclarator → ∀ s ∈ sorts, s.any Category.gathers → s = some .parameterTypeList
  gathered : category.gathers → some .parameterTypeList ∉ sorts
  outer : category.isDeclarator ∨ category.gathers → some .declaration ∉ sorts ∧ some .enumerator ∉ sorts
  listed : category.isSpecifiers → some .declaration ∉ sorts
  declaration : category = .declaration → sorts.head?.join.any Category.isSpecifiers ∧
    ∀ s ∈ sorts.tail, ¬ s.any Category.isSpecifiers

namespace Shaped

variable {role : Role} {category : Category} {sorts : List (Option Category)}

lemma role_ne_name (h : Shaped role category sorts) (hc : category ≠ .directDeclarator) : role ≠ .declaratorName :=
  fun hrole => hc (h.name hrole).1

lemma role_of_isSpecifiers (h : Shaped role category sorts) (hc : category.isSpecifiers) :
    role ≠ .declaratorName ∧ role ≠ .typedefStorage ∧ role ≠ .namedType := by
  refine ⟨h.role_ne_name ?_, fun hrole => ?_, fun hrole => ?_⟩
  · rintro rfl
    cases hc
  · rw [(h.storage hrole).1] at hc
    cases hc
  · rw [h.namedType hrole] at hc
    cases hc

end Shaped

namespace Vocabulary

variable (V : Vocabulary)

def sort? : Symbol → Option Category
  | .term _ => none
  | .nonterm i => some (V.categories.getD i .other)

/-- All productions have their shape. A declarator begins with an identifier, and a lone terminal is the storage
class of type names if and only if it is the keyword. -/
structure Declarative : Prop where
  shaped : ∀ i p, V.table.productions[i]? = some p → Shaped (V.role i) (V.category i) (p.rhs.map V.sort?)
  name_kind : ∀ i p t kind, V.table.productions[i]? = some p → p.rhs = [.term t] → V.terminal? kind = some t →
    V.role i = .declaratorName → kind = .identifier
  storage_iff : ∀ i p t kind, V.table.productions[i]? = some p → p.rhs = [.term t] → V.terminal? kind = some t →
    (V.role i = .typedefStorage ↔ kind = .keyword .typedef)

end Vocabulary

namespace Rules

def sortOf : NamedSymbol → Option Category
  | .term _ => none
  | .nonterm name => some (categoryOf name)

lemma roles_shaped : ∀ r ∈ rules,
    ((roleOf r = .declaratorName → categoryOf r.left = .directDeclarator ∧ r.right = [t "identifier"]) ∧
      (roleOf r = .typedefStorage → categoryOf r.left = .other) ∧
      (roleOf r = .namedType → categoryOf r.left = .typeSpecifier) ∧
      (roleOf r = .functionDeclarator → (r.right.map sortOf).count (some .parameterTypeList) = 1)) ∧
    ((categoryOf r.left).isSpecifiers → some .declaration ∉ r.right.map sortOf) ∧
    (categoryOf r.left = .declaration → (r.right.map sortOf).head?.join.any Category.isSpecifiers ∧
      ∀ s ∈ (r.right.map sortOf).tail, ¬ s.any Category.isSpecifiers) := by
  decide +kernel

lemma declarators_shaped : ∀ r ∈ rules,
    ((categoryOf r.left).isDeclarator →
      (roleOf r ≠ .declaratorName → (r.right.map sortOf).countP (·.any Category.isDeclarator) = 1) ∧
      ∀ s ∈ r.right.map sortOf, s.any Category.gathers → s = some .parameterTypeList) ∧
    ((categoryOf r.left).gathers → some .parameterTypeList ∉ r.right.map sortOf) ∧
    ((categoryOf r.left).isDeclarator ∨ (categoryOf r.left).gathers →
      some .declaration ∉ r.right.map sortOf ∧ some .enumerator ∉ r.right.map sortOf) := by
  decide +kernel

lemma declaring : ∀ r ∈ rules,
    ((roleOf r).use? ≠ none → r.right = [t "identifier"] ∧ categoryOf r.left = .other) ∧
    (categoryOf r.left = .declaration → r.right = [n "DeclarationSpecifiers", t "semicolon"] ∨
      r.right = [n "DeclarationSpecifiers", n "InitDeclaratorList", t "semicolon"]) ∧
    (categoryOf r.left = .initDeclaratorList → ∀ x ∈ r.right,
      sortOf x ∈ [none, some Category.initDeclaratorList, some Category.initDeclarator]) ∧
    (categoryOf r.left = .initDeclarator → r.right = [n "Declarator"] ∨
      r.right = [n "DeclaratorInit", n "Initializer"]) ∧
    (categoryOf r.left = .enumerator → r.right.head? = some (t "identifier")) := by
  decide +kernel

lemma gathering : ∀ r ∈ rules,
    (categoryOf r.left ∉ [Category.declaration, .directDeclarator, .directAbstractDeclarator, .initDeclaratorList,
        .initDeclarator, .parameterTypeList, .parameterList] →
      ∀ x ∈ r.right, (sortOf x).any Category.gathers = false) ∧
    (categoryOf r.left ∈ [Category.directDeclarator, .directAbstractDeclarator] →
      ∀ x ∈ r.right, startsBlock x = false ∧ flat x = true ∧
        ((sortOf x).any Category.gathers = true → sortOf x = some .parameterTypeList)) := by
  decide +kernel

lemma shaped {r : Rule} (hr : r ∈ rules) : Shaped (roleOf r) (categoryOf r.left) (r.right.map sortOf) := by
  obtain ⟨⟨hname, hstorage, hnamed, hsuffix⟩, hlisted, hdeclaration⟩ := roles_shaped r hr
  obtain ⟨hdeclarator, hgathered, houter⟩ := declarators_shaped r hr
  constructor
  case name =>
    intro h
    obtain ⟨hleft, hright⟩ := hname h
    exact ⟨hleft, by rw [hright]; rfl⟩
  case storage =>
    intro h
    exact ⟨hstorage h, by rw [(storage_iff r hr).mp h]; rfl⟩
  case namedType => exact hnamed
  case suffix => exact hsuffix
  case inner => exact fun h => (hdeclarator h).1
  case own => exact fun h => (hdeclarator h).2
  case gathered => exact hgathered
  case outer => exact houter
  case listed => exact hlisted
  case declaration => exact hdeclaration

end Rules

namespace Vocabulary.Standard

open Rules

variable {V : Vocabulary} {g : Grammar} (h : V.Standard g)

include h

lemma sort_eq {x : NamedSymbol} (hx : Occurs x) : V.sort? (Grammar.numberOf rules x) = sortOf x := by
  cases x with
  | term name => rfl
  | nonterm name =>
    obtain ⟨i, hi⟩ : ∃ i, .nonterm i = Grammar.numberOf rules (.nonterm name) := ⟨_, rfl⟩
    have hname := Grammar.ofRules_nonterminal h.grammar_eq hx.named hi
    have hcategory := ofTable_nonterminal h.table (Grammar.ofRules_nonterminals_nodup h.grammar_eq) hname
    rw [← hi, sort?, sortOf, Array.getD_eq_getD_getElem?, hcategory]
    rfl

lemma sorts_eq {xs : List NamedSymbol} (hxs : ∀ x ∈ xs, Occurs x) :
    (xs.map (Grammar.numberOf rules)).map V.sort? = xs.map sortOf := by
  rw [List.map_map]
  exact List.map_congr_left fun x hx => h.sort_eq (hxs x hx)

lemma rule_of_production {i : ℕ} {p : Production} (hp : V.table.productions[i]? = some p) :
    (V.role i = .other ∧ V.category i = .other ∧ ∃ x, Occurs x ∧ p.rhs = [Grammar.numberOf rules x] ∧
      sortOf x = some .other) ∨
    ∃ r ∈ rules, V.role i = roleOf r ∧ V.category i = categoryOf r.left ∧
      p.rhs = r.right.map (Grammar.numberOf rules) := by
  rw [h.productions_eq] at hp
  cases i with
  | zero =>
    obtain ⟨first, rest, checked, hrules, _, _, _, _, hproductions⟩ := Grammar.ofRules_eq h.grammar_eq
    have hfirst : rules[0]? = some first := by rw [hrules]; rfl
    have hunit : rules[0]? = some ⟨1, none, "TranslationUnit", [.nonterm "ExternalDeclaration"]⟩ := rfl
    obtain rfl := Option.some.inj (hunit.symm.trans hfirst)
    have hstart := hp
    rw [hproductions, List.getElem?_toArray, List.getElem?_cons_zero] at hstart
    obtain rfl := Option.some.inj hstart
    refine Or.inl ⟨?_, ?_, _, ⟨_, List.mem_of_getElem? hunit, Or.inl rfl⟩, rfl, rfl⟩
    · exact ofTable_role h.table (Grammar.ofRules_labels_nodup h.grammar_eq) h.numbered.index_eq hp
    · have hname := Grammar.ofRules_nonterminal h.grammar_eq Grammar.named_start Grammar.numberOf_start.symm
      exact ofTable_category h.table (Grammar.ofRules_nonterminals_nodup h.grammar_eq) hp hname
  | succ i =>
    obtain ⟨r, hr⟩ := Grammar.ofRules_rule h.grammar_eq hp
    obtain ⟨p', hp', _, hrhs, _⟩ := Grammar.ofRules_production h.grammar_eq hr
    obtain rfl := Option.some.inj (hp.symm.trans hp')
    exact Or.inr ⟨r, List.mem_of_getElem? hr, h.role_eq hr, h.category_eq hr, hrhs⟩

lemma right_of_term {r : Rule} (hr : r ∈ rules) {t : ℕ} {kind : TokenKind}
    (hright : r.right.map (Grammar.numberOf rules) = [.term t]) (ht : V.terminal? kind = some t) :
    r.right = [.term kind.terminal] := by
  obtain ⟨x, hx, hnumber⟩ := List.map_eq_singleton_iff.mp hright
  cases x with
  | nonterm name => cases hnumber
  | term name =>
    have hnamed : Grammar.Named rules (.term name) := Grammar.named_right hr (by simp [hx])
    have hlookup : (Grammar.terminalNames rules)[t]? = some name := by
      rw [← Symbol.term.inj hnumber]
      exact List.getElem?_idxOf hnamed
    rw [h.terminal_name ht] at hlookup
    rw [hx, Option.some.inj hlookup]

lemma declarative : V.Declarative := by
  constructor
  case shaped =>
    intro i p hp
    rcases h.rule_of_production hp with ⟨hrole, hcategory, x, hx, hrhs, hsort⟩ | ⟨r, hr, hrole, hcategory, hrhs⟩
    · rw [hrole, hcategory, hrhs, List.map_singleton, h.sort_eq hx, hsort]
      constructor <;> simp [Category.isDeclarator, Category.gathers, Category.isSpecifiers]
    · rw [hrole, hcategory, hrhs, h.sorts_eq fun x hx => ⟨r, hr, Or.inr hx⟩]
      exact shaped hr
  case name_kind =>
    intro i p t kind hp hrhs ht hname
    rcases h.rule_of_production hp with ⟨hrole, _⟩ | ⟨r, hr, hrole, _, hright⟩
    · rw [hrole] at hname
      cases hname
    · rw [hright] at hrhs
      have hidentifier := ((roles_shaped r hr).1.1 (hrole.symm.trans hname)).2
      rw [h.right_of_term hr hrhs ht] at hidentifier
      exact kind_identifier (by simpa [Rules.t] using hidentifier)
  case storage_iff =>
    intro i p t kind hp hrhs ht
    rcases h.rule_of_production hp with ⟨hrole, _, x, hx, hright, hsort⟩ | ⟨r, hr, hrole, _, hright⟩
    · rw [hright] at hrhs
      cases x with
      | term name => cases hsort
      | nonterm name => cases (List.cons.inj hrhs).1
    · rw [hright] at hrhs
      rw [hrole, storage_iff r hr, h.right_of_term hr hrhs ht]
      constructor
      · exact fun htypedef => kind_typedef (by simpa [Rules.t] using htypedef)
      · rintro rfl
        rfl

end Vocabulary.Standard

end Ramify.C
