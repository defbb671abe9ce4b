import Ramify.Proofs.C.SpelledTrees
import Ramify.Proofs.C.TreeSpans

namespace Ramify.C

namespace Scopes

lemma pop_of_outer {s s' : Scopes} (h : s'.outer = s.inner :: s.outer) : s'.pop = s := by
  rw [pop, pop?, h]
  rfl

end Scopes

namespace Tree

def names (f : Tree → List String) (t : Tree) : List String := t.subtrees.flatMap f

lemma mem_names_node {f : Tree → List String} {p : Nat} {span : Span} {annotations : Annotations}
    {children : List Tree} {name : String} : name ∈ (node p span annotations children).names f ↔
      name ∈ f (node p span annotations children) ∨ ∃ c ∈ children, name ∈ c.names f := by
  simp only [names, subtrees, List.flatMap_cons, List.mem_append, List.mem_flatMap, mem_forestSubtrees]
  constructor
  · rintro (h | ⟨s, ⟨c, hc, hs⟩, h⟩)
    · exact Or.inl h
    · exact Or.inr ⟨c, hc, s, hs, h⟩
  · rintro (h | ⟨c, hc, s, hs, h⟩)
    · exact Or.inl h
    · exact Or.inr ⟨s, ⟨c, hc, hs⟩, h⟩

end Tree

def Checker.bindsAt (K : Checker) : Tree → List String
  | .leaf _ _ => []
  | .node p _ annotations _ =>
    match K.vocabulary.category p with
    | .declaratorInit | .enumerator => annotations.declares.map Declared.name
    | _ => []

namespace Reader

open Rules

variable {R : Reader} {g : Grammar} {x : NamedSymbol} {t : Tree} {xs : List NamedSymbol} {ts : List Tree}

lemma after_leaf {i : Nat} {span : Span} {token : Token} (h : R.tokens[i]? = some token) (ctx : Context) :
    R.checker.after ctx (.leaf i span) = contextAfter ctx token.kind := by
  have htok : R.checker.tokens[i]? = some token := h
  rw [Checker.after, htok]
  rfl

section Rule

variable (hV : R.vocabulary.Standard g) {i : Nat} {r : Rule} (hr : rules[i]? = some r)

include hV hr

lemma checker_role : R.checker.vocabulary.role (i + 1) = roleOf r := hV.role_eq hr

lemma checker_category : R.checker.vocabulary.category (i + 1) = categoryOf r.left := hV.category_eq hr

lemma checker_role? : R.checker.vocabulary.role? (i + 1) = some (roleOf r) :=
  (hV.covers_rule hr).role?_eq.trans (congrArg some (hV.role_eq hr))

lemma checker_category? : R.checker.vocabulary.category? (i + 1) = some (categoryOf r.left) :=
  (hV.covers_rule hr).category?_eq.trans (congrArg some (hV.category_eq hr))

lemma after_node (ctx : Context) (span : Span) (annotations : Annotations) (children : List Tree) :
    R.checker.after ctx (.node (i + 1) span annotations children) =
      advance (R.checker.afterAll ctx children) (roleOf r) (categoryOf r.left) annotations := by
  rw [Checker.after, checker_role hV hr, checker_category hV hr]

end Rule

lemma scopes_contextAfter {kind : TokenKind} (h : opens (.term kind.terminal) = false) (ctx : Context) :
    (contextAfter ctx kind).scopes = ctx.scopes := by
  rw [contextAfter]
  refine if_neg ?_
  rintro rfl
  cases h

lemma kind?_contextAfter (ctx : Context) (kind : TokenKind) (name : String) :
    (contextAfter ctx kind).scopes.kind? name = ctx.scopes.kind? name := by
  rw [contextAfter]
  split <;> rfl

lemma pending_contextAfter {kind : TokenKind} (h : settles (.term kind.terminal) = true) (ctx : Context) :
    (contextAfter ctx kind).pending = none := by
  refine if_neg ?_
  rintro rfl
  cases h

lemma outer_advance {ctx : Context} {role : Role} {category : Category} {annotations : Annotations}
    (hblock : category ≠ .compoundStatement) (hopen : category ≠ .blockOpen) (hrole : role ≠ .forLoop) :
    (advance ctx role category annotations).scopes.outer = ctx.scopes.outer := by
  rw [advance.eq_def]
  cases category
  case compoundStatement => exact absurd rfl hblock
  case blockOpen => exact absurd rfl hopen
  case iterationStatement =>
    dsimp only
    rw [if_neg hrole]
  all_goals first | rfl | exact outer_bindAll _ _ _

lemma pending_advance {ctx : Context} {category : Category} (h : ctx.pending = none) (hc : category ≠ .declarator)
    (role : Role) (annotations : Annotations) : (advance ctx role category annotations).pending = none := by
  rw [advance.eq_def]
  cases category
  case declarator => exact absurd rfl hc
  case iterationStatement =>
    dsimp only
    split <;> exact h
  all_goals first | exact h | rfl

lemma outer_afterAll (h : List.Forall₂ (fun x t => opens x = false →
    ∀ ctx, (R.checker.after ctx t).scopes.outer = ctx.scopes.outer) xs ts) (hxs : ∀ x ∈ xs, opens x = false)
    (ctx : Context) : (R.checker.afterAll ctx ts).scopes.outer = ctx.scopes.outer := by
  induction h generalizing ctx with
  | nil => rfl
  | cons ht _ ih =>
    rw [List.forall_mem_cons] at hxs
    rw [Checker.afterAll, ih hxs.2, ht hxs.1]

lemma pending_afterAll (h : List.Forall₂ (fun x t => settles x = true →
    ∀ ctx, (R.checker.after ctx t).pending = none) xs ts) (hxs : xs.getLast?.any settles = true) (ctx : Context) :
    (R.checker.afterAll ctx ts).pending = none := by
  induction h generalizing ctx with
  | nil => cases hxs
  | @cons x t xs ts ht hrest ih =>
    rw [Checker.afterAll]
    cases hrest with
    | nil =>
      rw [Checker.afterAll]
      exact ht hxs ctx
    | cons hy hrest =>
      rw [List.getLast?_cons_cons] at hxs
      exact ih hxs _

lemma kind?_afterAll {name : String} {f : Tree → List String} (h : List.Forall₂ (fun x t => flat x = true →
    ∀ ctx, (R.checker.after ctx t).scopes.kind? name =
      if name ∈ t.names f then some .ordinary else ctx.scopes.kind? name) xs ts)
    (hxs : ∀ x ∈ xs, flat x = true) (ctx : Context) : (R.checker.afterAll ctx ts).scopes.kind? name =
      if ∃ c ∈ ts, name ∈ c.names f then some .ordinary else ctx.scopes.kind? name := by
  induction h generalizing ctx with
  | nil => simp [Checker.afterAll]
  | @cons x t xs ts ht _ ih =>
    rw [List.forall_mem_cons] at hxs
    rw [Checker.afterAll, ih hxs.2, ht hxs.1]
    simp only [List.exists_mem_cons_iff]
    by_cases hts : ∃ c ∈ ts, name ∈ c.names f
    · rw [if_pos hts, if_pos (Or.inr hts)]
    · rw [if_neg hts]
      simp only [hts, or_false]

section Standard

variable (hV : R.vocabulary.Standard g)

include hV

lemma after_blockOpen (h : R.Spells (n "BlockOpen") t) (ctx : Context) :
    R.checker.after ctx t = ⟨bindAll ctx.scopes.push .ordinary (ctx.pending.getD []), none⟩ := by
  obtain ⟨i, r, span, annotations, children, rfl, hr, hleft, hchildren, _⟩ := h.nonterm_inv
  have hcategory : categoryOf r.left = .blockOpen := hleft ▸ rfl
  rw [(blockOpen_right (List.mem_of_getElem? hr) hcategory).2] at hchildren
  obtain ⟨brace, _, hbrace, hrest, rfl⟩ := List.forall₂_cons_left_iff.mp hchildren
  obtain rfl := List.forall₂_nil_left_iff.mp hrest
  obtain ⟨j, span', token, rfl, htok, hkind⟩ := hbrace.term_inv
  rw [after_node hV hr, hcategory, Checker.afterAll, Checker.afterAll, after_leaf htok, kind_leftBrace hkind]
  rfl

omit hV in
lemma after_for (h : R.Spells (Rules.t "for") t) (ctx : Context) :
    (R.checker.after ctx t).scopes = ctx.scopes.push := by
  obtain ⟨i, span, token, rfl, htok, hkind⟩ := h.term_inv
  rw [after_leaf htok, kind_for hkind]
  rfl

lemma outer_of_block {i : Nat} {r : Rule} (hr : rules[i]? = some r) {span : Span} {annotations : Annotations}
    (hclosed : categoryOf r.left = .compoundStatement ∨ roleOf r = .forLoop)
    (h : List.Forall₂ (fun x t => R.Spells x t ∧ (opens x = false →
      ∀ ctx, (R.checker.after ctx t).scopes.outer = ctx.scopes.outer)) r.right ts) (ctx : Context) :
    (R.checker.after ctx (.node (i + 1) span annotations ts)).scopes = ctx.scopes := by
  have hmem := List.mem_of_getElem? hr
  -- Behind the first child there is one scope more.
  obtain ⟨first, xs, hright, hxs, hfirst⟩ : ∃ first xs, r.right = first :: xs ∧ (∀ x ∈ xs, opens x = false) ∧
      ∀ t ctx, R.Spells first t → (R.checker.after ctx t).scopes.outer = ctx.scopes.inner :: ctx.scopes.outer := by
    rcases hclosed with hblock | hloop
    · rcases compound_right hmem hblock with hright | hright
      all_goals
        refine ⟨_, _, hright, by decide +kernel, fun t ctx ht => ?_⟩
        rw [after_blockOpen hV ht, outer_bindAll]
        rfl
    · obtain ⟨_, xs, hright, hxs⟩ := loop_right hmem hloop
      refine ⟨_, xs, hright, hxs, fun t ctx ht => ?_⟩
      rw [after_for ht]
      rfl
  rw [hright] at h
  obtain ⟨t, rest, ht, hrest, rfl⟩ := List.forall₂_cons_left_iff.mp h
  have houter : (R.checker.afterAll ctx (t :: rest)).scopes.outer = ctx.scopes.inner :: ctx.scopes.outer := by
    rw [Checker.afterAll, outer_afterAll (hrest.imp fun {_ _} h => h.2) hxs, hfirst t ctx ht.1]
  rw [after_node hV hr]
  rcases hclosed with hblock | hloop
  · rw [hblock]
    exact Scopes.pop_of_outer houter
  · rw [(loop_right hmem hloop).1, hloop]
    exact Scopes.pop_of_outer houter

lemma outer_after (h : R.Spells x t) (hx : opens x = false) (ctx : Context) :
    (R.checker.after ctx t).scopes.outer = ctx.scopes.outer := by
  revert hx ctx
  refine h.induction (fun i span token ht hx ctx => ?_) fun i r span annotations children hr hchildren _ hx ctx => ?_
  · rw [after_leaf ht, scopes_contextAfter hx]
  · have hmem := List.mem_of_getElem? hr
    by_cases hclosed : categoryOf r.left = .compoundStatement ∨ roleOf r = .forLoop
    · rw [outer_of_block hV hr hclosed hchildren]
    · obtain ⟨hblock, hloop⟩ := not_or.mp hclosed
      have hopen : categoryOf r.left ≠ .blockOpen := by
        intro hopen
        rw [(blockOpen_right hmem hopen).1] at hx
        cases hx
      rw [after_node hV hr, outer_advance hblock hopen hloop]
      exact outer_afterAll (hchildren.imp fun {_ _} h => h.2) (opens_right hmem hblock hloop) ctx

lemma scopes_after_closed {i : Nat} {r : Rule} (hr : rules[i]? = some r) {span : Span} {annotations : Annotations}
    (hclosed : categoryOf r.left = .compoundStatement ∨ roleOf r = .forLoop) (h : List.Forall₂ R.Spells r.right ts)
    (ctx : Context) : (R.checker.after ctx (.node (i + 1) span annotations ts)).scopes = ctx.scopes :=
  outer_of_block hV hr hclosed (h.imp fun {_ _} ht => ⟨ht, fun hx ctx => outer_after hV ht hx ctx⟩) ctx

lemma pending_after (h : R.Spells x t) (hx : settles x = true) (ctx : Context) :
    (R.checker.after ctx t).pending = none := by
  revert hx ctx
  refine h.induction (fun i span token ht hx ctx => ?_) fun i r span annotations children hr hchildren ha hx ctx => ?_
  · rw [after_leaf ht]
    exact pending_contextAfter hx ctx
  · have hspells : R.Spells (.nonterm r.left) (.node (i + 1) span annotations children) :=
      .node hr (hchildren.imp fun {_ _} h => h.1) ha
    by_cases hopen : r.left = "BlockOpen"
    · rw [hopen] at hspells
      rw [after_blockOpen hV hspells]
    · obtain ⟨hcategory, hlast⟩ := (settling r (List.mem_of_getElem? hr)).2 hx hopen
      rw [after_node hV hr]
      exact pending_advance (pending_afterAll (hchildren.imp fun {_ _} h => h.2) hlast ctx) hcategory _ _

lemma pending_declarator (h : R.Spells (n "Declarator") t) (ctx : Context) :
    (R.checker.after ctx t).pending = t.annotations.params := by
  obtain ⟨i, r, span, annotations, children, rfl, hr, hleft, hchildren, -⟩ := h.nonterm_inv
  have hc : categoryOf r.left = .declarator := hleft ▸ rfl
  have hlast := (filing r (List.mem_of_getElem? hr)).2 hc
  have hpending : (R.checker.afterAll ctx children).pending = none :=
    pending_afterAll (hchildren.imp fun {_ _} ht hx ctx => pending_after hV ht hx ctx) (by rw [hlast]; rfl) ctx
  rw [after_node hV hr, hc, advance, hpending, Option.or_none]
  rfl

lemma kind?_after (h : R.Spells x t) (hx : flat x = true) (ctx : Context) (name : String) :
    (R.checker.after ctx t).scopes.kind? name =
      if name ∈ t.names R.checker.bindsAt then some .ordinary else ctx.scopes.kind? name := by
  revert hx ctx
  refine h.induction (fun i span token ht hx ctx => ?_) fun i r span annotations children hr hchildren ha hx ctx => ?_
  · rw [after_leaf ht, kind?_contextAfter]
    rfl
  · obtain ⟨hflat, hcategory⟩ := (nesting r (List.mem_of_getElem? hr)).2 hx
    have hall : (R.checker.afterAll ctx children).scopes.kind? name =
        if ∃ c ∈ children, name ∈ c.names R.checker.bindsAt then some .ordinary else ctx.scopes.kind? name :=
      kind?_afterAll (hchildren.imp fun {_ _} h => h.2) (List.all_eq_true.mp hflat) ctx
    simp only [Tree.mem_names_node, Checker.bindsAt, checker_category hV hr]
    rw [after_node hV hr, advance.eq_def]
    cases hc : categoryOf r.left
    case declaratorInit | enumerator =>
      dsimp only
      rw [Scopes.kind?_bindAll, hall]
      by_cases hmem : name ∈ annotations.declares.map Declared.name
      · rw [if_pos hmem, if_pos (Or.inl hmem)]
      · rw [if_neg hmem]
        simp [hmem]
    case functionDefinition | declaration | blockOpen | compoundStatement | iterationStatement =>
      rw [hc] at hcategory
      exact absurd (by decide) hcategory
    all_goals simpa using hall

end Standard

end Reader

end Ramify.C
