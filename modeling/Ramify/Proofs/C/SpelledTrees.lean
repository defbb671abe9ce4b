import Ramify.Proofs.C.BlockScopes
import Ramify.Proofs.C.Provisional
import Ramify.Proofs.C.RuleShapes

namespace Ramify.C

inductive Reader.Spells (R : Reader) : NamedSymbol → Tree → Prop
  | leaf {i : Nat} {span : Span} {token : Token} : R.tokens[i]? = some token →
      Spells R (.term token.kind.terminal) (.leaf i span)
  | node {i : Nat} {r : Rule} {span : Span} {annotations : Annotations} {children : List Tree} :
      Rules.rules[i]? = some r → List.Forall₂ (Spells R) r.right children →
      R.annotate (Rules.roleOf r) (Rules.categoryOf r.left) (children.map Tree.part) = .ok annotations →
      Spells R (.nonterm r.left) (.node (i + 1) span annotations children)

lemma Tree.induction {P : Tree → Prop} (leaf : ∀ i span, P (.leaf i span))
    (node : ∀ p span annotations children, (∀ c ∈ children, P c) → P (.node p span annotations children))
    (t : Tree) : P t :=
  Tree.rec (motive_2 := fun children => ∀ c ∈ children, P c) leaf node (List.forall_mem_nil _)
    (fun _ _ ht hts => List.forall_mem_cons.mpr ⟨ht, hts⟩) t

namespace Reader

open Rules Search

variable (R : Reader)

variable {R} in
lemma Spells.node_inv {x : NamedSymbol} {p : Nat} {span : Span} {annotations : Annotations} {children : List Tree}
    (h : R.Spells x (.node p span annotations children)) : ∃ i r, p = i + 1 ∧ rules[i]? = some r ∧
      x = .nonterm r.left ∧ List.Forall₂ R.Spells r.right children ∧
      R.annotate (roleOf r) (categoryOf r.left) (children.map Tree.part) = .ok annotations := by
  cases h with
  | node hr hc ha => exact ⟨_, _, rfl, hr, rfl, hc, ha⟩

variable {R} in
lemma Spells.term_inv {name : String} {t : Tree} (h : R.Spells (.term name) t) :
    ∃ i span token, t = .leaf i span ∧ R.tokens[i]? = some token ∧ token.kind.terminal = name := by
  cases h with
  | leaf ht => exact ⟨_, _, _, rfl, ht, rfl⟩

variable {R} in
lemma Spells.nonterm_inv {left : String} {t : Tree} (h : R.Spells (.nonterm left) t) :
    ∃ i r span annotations children, t = .node (i + 1) span annotations children ∧ rules[i]? = some r ∧
      r.left = left ∧ List.Forall₂ R.Spells r.right children ∧
      R.annotate (roleOf r) (categoryOf r.left) (children.map Tree.part) = .ok annotations := by
  cases h with
  | node hr hc ha => exact ⟨_, _, _, _, _, rfl, hr, rfl, hc, ha⟩

variable {R} in
@[elab_as_elim]
lemma Spells.induction {P : NamedSymbol → Tree → Prop} {x : NamedSymbol} {t : Tree} (h : R.Spells x t)
    (leaf : ∀ i span token, R.tokens[i]? = some token → P (.term token.kind.terminal) (.leaf i span))
    (node : ∀ i r span annotations children, rules[i]? = some r →
      List.Forall₂ (fun x t => R.Spells x t ∧ P x t) r.right children →
      R.annotate (roleOf r) (categoryOf r.left) (children.map Tree.part) = .ok annotations →
      P (.nonterm r.left) (.node (i + 1) span annotations children)) : P x t := by
  induction t using Tree.induction generalizing x with
  | leaf i span =>
    cases h with
    | leaf ht => exact leaf i span _ ht
  | node p span annotations children ih =>
    obtain ⟨i, r, rfl, hr, rfl, hchildren, ha⟩ := h.node_inv
    have hmem := ((List.forall₂_and_left _ _).mpr ⟨fun _ => id, hchildren.flip⟩).flip
    exact node i r span annotations children hr (hmem.imp fun {_ t} ht => ⟨ht.2, ih t ht.1 ht.2⟩) ha

/-- A tree spells the symbol of C that a symbol of the table stands for. -/
def SpellsNumber (s : Symbol) (t : Tree) : Prop :=
  ∀ x, Occurs x → Grammar.numberOf rules x = s → R.Spells x t

variable {R} {B : Builder Token Tree Context FrontError Unit} {g : Grammar}

lemma spells_children {xs : List NamedSymbol} {children : List Tree} (hxs : ∀ x ∈ xs, Occurs x)
    (h : List.Forall₂ R.SpellsNumber (xs.map (Grammar.numberOf rules)) children) :
    List.Forall₂ R.Spells xs children := by
  rw [List.forall₂_map_left_iff] at h
  induction h with
  | nil => exact .nil
  | cons ht _ ih =>
    refine .cons (ht _ (hxs _ List.mem_cons_self) rfl) (ih fun x hx => ?_)
    exact hxs x (List.mem_cons_of_mem _ hx)

lemma Builds.keeps_spells (hB : R.Builds B) (hV : R.vocabulary.Standard g) :
    B.Keeps R.tokens g.productions R.SpellsNumber := by
  constructor
  · intro s s' c c' token i t v hb htok ht x hx he
    rw [hB.shift_eq] at hb
    obtain rfl : Tree.leaf i token.span = v := by
      cases hb
      rfl
    rw [hB.terminal_eq] at ht
    have hname := hV.terminal_name ht
    cases x with
    | nonterm n => cases he
    | term name =>
      have hlookup : (Grammar.terminalNames rules)[t]? = some name := by
        rw [← Symbol.term.inj he]
        exact List.getElem?_idxOf hx.named
      rw [hname] at hlookup
      exact Option.some.inj hlookup ▸ .leaf htok
  · intro s s' c c' p index children v hb hp hc x hx he
    obtain ⟨annotations, ha, hr⟩ := hB.reduce_ok hb
    obtain rfl : v = _ := congrArg Prod.snd hr
    obtain rfl := hV.numbered.index_eq _ _ hp
    cases hindex : p.index with
    | zero =>
      -- The left side of the start production occurs in no rule.
      obtain ⟨start, _, hstart, _, hlhs, _⟩ := hV.numbered.start
      rw [hindex] at hp
      obtain rfl := Option.some.inj (hp.symm.trans hstart)
      refine absurd (Grammar.numberOf_inj hx.named Grammar.named_start ?_) hx.ne_start
      rw [he, hlhs, Grammar.numberOf_start]
    | succ i =>
      rw [hindex] at hp
      obtain ⟨r, hr⟩ := Grammar.ofRules_rule hV.grammar_eq hp
      have hmem := List.mem_of_getElem? hr
      obtain ⟨p', hp', hlhs, hrhs, _⟩ := Grammar.ofRules_production hV.grammar_eq hr
      obtain rfl := Option.some.inj (hp.symm.trans hp')
      rw [hlhs] at he
      obtain rfl := Grammar.numberOf_inj hx.named (Grammar.named_left hmem) he
      rw [hrhs] at hc
      rw [annotationsOf_of_covers R (hindex ▸ hV.covers_rule hr), hindex, hV.role_eq hr, hV.category_eq hr] at ha
      rw [made, hindex]
      exact .node hr (spells_children (fun x hx => ⟨r, hmem, Or.inr hx⟩) hc) ha

variable {L : Parser Token Tree Context FrontError Unit} {values : List Tree}

lemma Builds.spells_of_accepts (hB : R.Builds L.builder) (hV : R.vocabulary.Standard g)
    (hL : L.Constructed preferShift g) (hne : 0 < R.tokens.size) (h : L.Accepts R.tokens () values) :
    ∃ t, values = [t] ∧ R.Spells (.nonterm "TranslationUnit") t := by
  obtain ⟨p, token, actions, hp, hc, ha, rfl⟩ := h
  have hstands : ∃ symbols, L.Stands R.tokens g R.SpellsNumber p symbols := by
    clear hc
    induction hp with
    | refl => exact ⟨[], Parser.stands_start hne ()⟩
    | tail _ hm ih => exact Parser.Stands.movesTo hL (hB.keeps_spells hV) ih hm
  obtain ⟨symbols, hstands⟩ := hstands
  obtain ⟨first, t, hfirst, _, hvalues, ht⟩ := hstands.accept hL hV.isolated hc ha
  refine ⟨t, hvalues, ht _ ?_ (hV.first_eq hfirst).symm⟩
  exact ⟨_, List.mem_of_getElem? (i := 0) rfl, Or.inl rfl⟩

end Reader

namespace Checker

variable {K : Checker}

def Defined {α : Type} (x : Except Fault α) : Prop := ∀ p, x ≠ .error (.undefined p)

section Defined

variable {α β : Type} {x : Except Fault α} {f : α → Except Fault β}

lemma Defined.bind (hx : Defined x) (hf : ∀ a, Defined (f a)) : Defined (x >>= f) := by
  intro p h
  cases x with
  | error e =>
    obtain rfl := Except.error.inj (show Except.error e = _ from h)
    exact hx p rfl
  | ok a => exact hf a p h

lemma Defined.map (hx : Defined x) (f : α → β) : Defined (x.map f) := by
  intro p h
  cases x with
  | error e => exact hx p (congrArg _ (Except.error.inj h))
  | ok a => cases h

lemma defined_ok (a : α) : Defined (.ok a) := nofun

lemma defined_declare (s : Scopes) (kind : NameKind) (d : Declared) : Defined (declare s kind d) := by
  intro p h
  rw [declare] at h
  split at h <;> cases h

lemma defined_declareAll (s : Scopes) (kind : NameKind) (names : List Declared) :
    Defined (declareAll s kind names) := by
  induction names generalizing s with
  | nil => exact defined_ok s
  | cons d names ih =>
    rw [declareAll, List.foldlM_cons]
    exact (defined_declare s kind d).bind ih

lemma defined_expect {children : List Tree} (hne : children ≠ []) (p : Nat) (s : Scopes) (kind : NameKind) :
    Defined (K.expect p s kind children) := by
  intro p h
  obtain ⟨t, rest, rfl⟩ := List.exists_cons_of_ne_nil hne
  rw [expect] at h
  split at h
  · cases h
  · split at h <;> cases h

end Defined

lemma defined_block (s : Scopes) {f : Scopes → Except Fault Scopes} (hf : Defined (f s.push)) :
    Defined (block s f) := hf.map _

section Evaluate

set_option linter.unusedSectionVars false

variable {R : Reader} {g : Grammar} (hV : R.vocabulary.Standard g)

include hV

mutual

lemma defined_evaluate (kind : Option NameKind) (s : Scopes) : ∀ {t : Tree} {x : NamedSymbol}, R.Spells x t →
    Defined (R.checker.evaluate kind s t)
  | .leaf _ _, _, _ => by
    rw [evaluate]
    exact defined_ok s
  | .node p _ annotations children, _, h => by
    obtain ⟨i, r, rfl, hr, _, hchildren, _⟩ := h.node_inv
    have hmem := List.mem_of_getElem? hr
    have hne : children ≠ [] := by
      rintro rfl
      exact (Rules.sides r hmem).2.2.2 (List.forall₂_nil_right_iff.mp hchildren)
    have hcategory : R.checker.vocabulary.category (i + 1) = Rules.categoryOf r.left := hV.category_eq hr
    have hcovers : R.checker.vocabulary.Covers (i + 1) := hV.covers_rule hr
    rw [evaluate, hcovers.role?_eq, hcovers.category?_eq]
    dsimp only
    cases (R.checker.vocabulary.role (i + 1)).use? with
    | some use => exact (defined_expect hne _ s use).map _
    | none =>
      dsimp only
      split
      · exact defined_ok s
      cases hc : R.checker.vocabulary.category (i + 1)
      case functionDefinition =>
        rw [Rules.functionDefinition_right hmem (hcategory ▸ hc)] at hchildren
        exact defined_evaluateFunction (i + 1) kind s hchildren
      case compoundStatement => exact defined_block s (defined_evaluateAll kind _ hchildren)
      case iterationStatement =>
        dsimp only
        split
        · exact defined_block s (defined_evaluateAll kind _ hchildren)
        · exact defined_evaluateAll kind s hchildren
      case declaration => exact defined_evaluateAll _ s hchildren
      case initDeclarator => exact defined_evaluateInitialized (i + 1) kind s _ hne hchildren
      case parameterDeclaration =>
        exact (defined_evaluateAll kind s hchildren).bind fun s => defined_declareAll s _ _
      case directDeclarator | directAbstractDeclarator => exact defined_evaluateParts kind s hchildren
      case enumerator => exact defined_evaluateEnumerator (i + 1) kind s hne hchildren
      all_goals exact defined_evaluateAll kind s hchildren

lemma defined_evaluateAll (kind : Option NameKind) (s : Scopes) : ∀ {ts : List Tree} {xs : List NamedSymbol},
    List.Forall₂ R.Spells xs ts → Defined (R.checker.evaluateAll kind s ts)
  | [], _, _ => by
    rw [evaluateAll]
    exact defined_ok s
  | t :: rest, _, .cons ht hrest => by
    rw [evaluateAll]
    exact (defined_evaluate kind s ht).bind fun s => defined_evaluateAll kind s hrest

lemma defined_evaluateFunction (p : Nat) (kind : Option NameKind) (s : Scopes) :
    ∀ {ts : List Tree} {x y z : NamedSymbol}, List.Forall₂ R.Spells [x, y, z] ts →
      Defined (R.checker.evaluateFunction p kind s ts)
  | specifiers :: declarator :: body :: _, _, _, _, .cons hs (.cons hd (.cons hb _)) => by
    rw [evaluateFunction]
    refine (defined_evaluate kind s hs).bind fun s => (defined_evaluate kind s hd).bind fun s => ?_
    refine (defined_declareAll s _ _).bind fun s => defined_block s ?_
    exact (defined_declareAll _ _ _).bind fun s => defined_evaluateItems kind s hb

lemma defined_evaluateItems (kind : Option NameKind) (s : Scopes) : ∀ {t : Tree} {x : NamedSymbol}, R.Spells x t →
    Defined (R.checker.evaluateItems kind s t)
  | .leaf _ _, _, _ => by
    rw [evaluateItems]
    exact defined_ok s
  | .node _ _ _ items, _, h => by
    obtain ⟨_, _, _, _, _, hitems, _⟩ := h.node_inv
    rw [evaluateItems]
    exact defined_evaluateAll kind s hitems

lemma defined_evaluateInitialized (p : Nat) (kind : Option NameKind) (s : Scopes) (names : List Declared) :
    ∀ {ts : List Tree} {xs : List NamedSymbol}, ts ≠ [] → List.Forall₂ R.Spells xs ts →
      Defined (R.checker.evaluateInitialized p kind s names ts)
  | [], _, hne, _ => absurd rfl hne
  | declarator :: rest, _, _, .cons hd hrest => by
    rw [evaluateInitialized]
    exact (defined_evaluate kind s hd).bind fun s =>
      (defined_declareAll s _ names).bind fun s => defined_evaluateAll kind s hrest

lemma defined_evaluateParts (kind : Option NameKind) (s : Scopes) : ∀ {ts : List Tree} {xs : List NamedSymbol},
    List.Forall₂ R.Spells xs ts → Defined (R.checker.evaluateParts kind s ts)
  | [], _, _ => by
    rw [evaluateParts]
    exact defined_ok s
  | t :: rest, _, .cons ht hrest => by
    have hpart : Defined (if R.checker.isParameterList t then
        block s fun s => R.checker.evaluate kind s t else R.checker.evaluate kind s t) := by
      split
      · exact defined_block s (defined_evaluate kind _ ht)
      · exact defined_evaluate kind s ht
    rw [evaluateParts]
    exact hpart.bind fun s => defined_evaluateParts kind s hrest

lemma defined_evaluateEnumerator (p : Nat) (kind : Option NameKind) (s : Scopes) :
    ∀ {ts : List Tree} {xs : List NamedSymbol}, ts ≠ [] → List.Forall₂ R.Spells xs ts →
      Defined (R.checker.evaluateEnumerator p kind s ts)
  | [], _, hne, _ => absurd rfl hne
  | name :: rest, _, _, .cons _ hrest => by
    rw [evaluateEnumerator]
    exact (defined_evaluateAll kind s hrest).bind fun s => defined_declare s _ _

end

lemma defined_check {t : Tree} {x : NamedSymbol} (h : R.Spells x t) : Defined (R.checker.check t) :=
  fun p hp => defined_evaluate hV none {} h p (check_error_iff.mp hp)

end Evaluate

end Checker

end Ramify.C
