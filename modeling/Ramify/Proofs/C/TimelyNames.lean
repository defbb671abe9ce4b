import Ramify.Proofs.C.DeclaredNames

namespace Ramify.C.Reader

open Rules Checker

variable {R : Reader} {g : Grammar} {kind : NameKind} {name : String} {x : NamedSymbol} {t : Tree}
  {xs : List NamedSymbol} {ts children : List Tree} {ctx : Context} {s s' s₁ : Scopes} {i : Nat} {r : Rule}
  {span : Span} {annotations : Annotations}

/-- A tree of a symbol, which is no whole part of a file, is read with nothing refused for the sake of a
name that is timely. -/
def Follows (R : Reader) (kind : NameKind) (name : String) (x : NamedSymbol) (t : Tree) : Prop :=
  ∀ (k : Option NameKind) (ctx : Context) (s s' : Scopes), topLevel x = false →
    (startsBlock x = true → ctx.pending = none) → R.checker.Timely kind name t → ctx.scopes.Serves s kind name →
    R.checker.evaluate k s t = .ok s' → R.checker.Keeps kind name ctx t s'

lemma serves_declareAll (h : ctx.scopes.Serves s kind name) (houter : s.outer = []) {names : List Declared}
    (he : declareAll s .ordinary names = .ok s') : ctx.scopes.Serves s' kind name := by
  have hdeclares := declares_of_declareAll he
  by_cases hname : name ∈ names.map Declared.name
  · rw [Scopes.Serves, Scopes.kind?_of_local? (hdeclares.local_eq name hname)]
    cases kind with
    | typedef =>
      intro htypedef
      cases htypedef
    | ordinary =>
      intro htypedef
      have hlocal : s.local? name = some .typedef := (Scopes.local?_of_outer houter).trans (h htypedef)
      cases hdeclares.compatible name hname _ hlocal
  · rw [Scopes.Serves, hdeclares.kind_other name hname]
    exact h

lemma evaluateAll_enumerator (hr : rules[i]? = some r) (hc : categoryOf r.left = .enumerator) {leaf : Tree}
    {rest : List Tree} (h : List.Forall₂ R.Spells r.right (leaf :: rest)) (k : Option NameKind) (s : Scopes) :
    R.checker.evaluateAll k s (leaf :: rest) = R.checker.evaluateAll k s rest := by
  obtain ⟨y, _, hy, -, hright⟩ := List.forall₂_cons_right_iff.mp h
  have hhead := (declaring r (List.mem_of_getElem? hr)).2.2.2.2 hc
  rw [hright, List.head?_cons] at hhead
  obtain rfl := Option.some.inj hhead
  obtain ⟨j, place, _, rfl, -, -⟩ := hy.term_inv
  rw [evaluateAll, evaluate]
  rfl

section Standard

variable (hV : R.vocabulary.Standard g)

include hV

lemma isParameterList_iff (h : R.Spells x t) : R.checker.isParameterList t = true ↔ sortOf x = some .parameterTypeList := by
  cases h with
  | leaf => exact ⟨nofun, nofun⟩
  | node hr =>
    rw [Checker.isParameterList, checker_category hV hr, beq_iff_eq]
    exact Option.some_inj.symm

lemma serves_after_parameters (h : R.Spells x t) (hx : flat x = true) (hlist : R.checker.isParameterList t = true)
    (htimely : R.checker.Timely kind name t) (hserves : ctx.scopes.Serves s kind name) :
    (R.checker.after ctx t).scopes.Serves s kind name := by
  rw [Scopes.Serves, kind?_after hV h hx]
  split
  · rename_i hbound
    cases kind with
    | typedef => exact absurd hbound (htimely.parameters rfl t t.mem_subtrees_self hlist)
    | ordinary => exact NameKind.ordinary_serves _
  · exact hserves

lemma keepsAll_of_follows (h : List.Forall₂ (fun x t => R.Spells x t ∧ R.Follows kind name x t) xs ts) {settled : Bool}
    (htop : ∀ x ∈ xs, topLevel x = false) (hguarded : guarded settled xs = true)
    (hpending : settled = true → ctx.pending = none) (htimely : ∀ t ∈ ts, R.checker.Timely kind name t)
    (hpairwise : ts.Pairwise fun c d => name ∈ R.checker.waiting kind c → name ∉ d.names (R.checker.usesAt kind))
    (hserves : ctx.scopes.Serves s kind name) {k : Option NameKind} (he : R.checker.evaluateAll k s ts = .ok s') :
    R.checker.KeepsAll kind name ctx ts s' := by
  induction h generalizing settled ctx s with
  | nil =>
    rw [Checker.evaluateAll] at he
    obtain rfl := Except.ok.inj he
    exact .nil hserves
  | @cons x t xs ts ht hrest ih =>
    rw [Checker.evaluateAll] at he
    obtain ⟨s₁, het, he⟩ := Grammar.ok_of_bind he
    rw [List.forall_mem_cons] at htop htimely
    rw [List.pairwise_cons] at hpairwise
    have hready : startsBlock x = true → ctx.pending = none :=
      fun hstart => hpending (settled_of_guarded hguarded hstart)
    refine .cons (ht.2 k ctx s s₁ htop.1 hready htimely.1 hserves het) (fun hwaits => ?_) fun hserves => ?_
    · exact Spells.everywhereAll_of_notMem (hrest.imp fun {_ _} h => h.1) (fun d hd => hpairwise.1 d hd hwaits) _
    · exact ih htop.2 (guarded_rest hguarded) (fun hsettles => pending_after hV ht.1 hsettles ctx) htimely.2
        hpairwise.2 hserves he

lemma keeps_parts (h : List.Forall₂ (fun x t => R.Spells x t ∧ R.Follows kind name x t) xs ts)
    (htop : ∀ x ∈ xs, topLevel x = false) (hxs : ∀ x ∈ xs, startsBlock x = false ∧ flat x = true ∧
      ((sortOf x).any Category.gathers = true → sortOf x = some .parameterTypeList))
    (htimely : ∀ t ∈ ts, R.checker.Timely kind name t)
    (hserves : ctx.scopes.Serves s kind name) {k : Option NameKind} (he : R.checker.evaluateParts k s ts = .ok s') :
    R.checker.everywhereAll (R.checker.knowsName kind name) ctx ts = true ∧
      (R.checker.afterAll ctx ts).scopes.Serves s' kind name := by
  induction h generalizing ctx s with
  | nil =>
    rw [Checker.evaluateParts] at he
    obtain rfl := Except.ok.inj he
    exact ⟨rfl, hserves⟩
  | @cons x t xs ts ht _ ih =>
    rw [Checker.evaluateParts] at he
    obtain ⟨s₁, het, he⟩ := Grammar.ok_of_bind he
    rw [List.forall_mem_cons] at htop hxs htimely
    obtain ⟨⟨hstarts, hflat, hgathers⟩, hxs⟩ := hxs
    have hready : startsBlock x = true → ctx.pending = none := fun hstart => by
      rw [hstarts] at hstart
      cases hstart
    have hpart : R.checker.everywhere (R.checker.knowsName kind name) ctx t = true ∧
        (R.checker.after ctx t).scopes.Serves s₁ kind name := by
      split at het
      · rename_i hlist
        obtain ⟨rfl, s₂, het⟩ := block_ok het
        refine ⟨?_, serves_after_parameters hV ht.1 hflat hlist htimely.1 hserves⟩
        have hpush : ctx.scopes.Serves s₁.push kind name := hserves
        exact (ht.2 k ctx _ s₂ htop.1 hready htimely.1 hpush het).known
      · rename_i hlist
        have hkeeps := ht.2 k ctx s s₁ htop.1 hready htimely.1 hserves het
        refine ⟨hkeeps.known, hkeeps.serves (ht.1.notMem_waiting hV (Bool.eq_false_iff.mpr fun hg => hlist ?_))⟩
        exact (isParameterList_iff hV ht.1).mpr (hgathers hg)
    obtain ⟨hknown, hserves⟩ := ih htop.2 hxs htimely.2 hpart.2 he
    exact ⟨by rw [Checker.everywhereAll, hpart.1, hknown, Bool.and_self], hserves⟩

structure Entered (R : Reader) (kind : NameKind) (name : String) (ctx : Context) (s : Scopes) (i : Nat) (r : Rule)
    (span : Span) (annotations : Annotations) (children : List Tree) : Prop where
  rule : rules[i]? = some r
  follow : List.Forall₂ (fun x t => R.Spells x t ∧ R.Follows kind name x t) r.right children
  annotated : R.annotate (roleOf r) (categoryOf r.left) (children.map Tree.part) = .ok annotations
  top : topLevel (.nonterm r.left) = false
  pending : startsBlock (.nonterm r.left) = true → ctx.pending = none
  timely : R.checker.Timely kind name (.node (i + 1) span annotations children)
  serves : ctx.scopes.Serves s kind name

namespace Entered

variable (h : R.Entered kind name ctx s i r span annotations children)

include h

omit hV in
lemma spells : List.Forall₂ R.Spells r.right children := h.follow.imp fun {_ _} h => h.1

omit hV in
lemma inner : ∀ x ∈ r.right, topLevel x = false := by
  simpa using (nesting r (List.mem_of_getElem? h.rule)).1 h.top

omit hV in
lemma guarded : Rules.guarded (startsBlock (.nonterm r.left)) r.right = true := by
  refine (settling r (List.mem_of_getElem? h.rule)).1 ?_
  intro hleft
  have htop := h.top
  rw [hleft] at htop
  cases htop

lemma all {s₀ : Scopes} (hserves : ctx.scopes.Serves s₀ kind name) {k : Option NameKind}
    (he : R.checker.evaluateAll k s₀ children = .ok s') : R.checker.KeepsAll kind name ctx children s' :=
  keepsAll_of_follows hV h.follow h.inner h.guarded h.pending (fun _ hc => h.timely.child hc) h.timely.pairwise
    hserves he

lemma expected {use : NameKind} (huse : (roleOf r).use? = some use)
    (he : (R.checker.expect (i + 1) s use children).map (fun _ => s) = .ok s') :
    R.checker.Keeps kind name ctx (.node (i + 1) span annotations children) s' := by
  cases hexpect : R.checker.expect (i + 1) s use children with
  | error e =>
    rw [hexpect] at he
    cases he
  | ok u =>
    rw [hexpect] at he
    obtain rfl := Except.ok.inj he
    exact keeps_use hV h.rule h.spells huse h.serves hexpect

variable (huse : (roleOf r).use? = none)

include huse

lemma closed (hclosed : categoryOf r.left = .compoundStatement ∨ roleOf r = .forLoop) {k : Option NameKind}
    (he : block s (fun s => R.checker.evaluateAll k s children) = .ok s') :
    R.checker.Keeps kind name ctx (.node (i + 1) span annotations children) s' := by
  obtain ⟨rfl, s₁, he⟩ := block_ok he
  have hpush : ctx.scopes.Serves s'.push kind name := h.serves
  exact keeps_closed hV h.rule (h.all hV hpush he) h.serves huse hclosed h.spells

lemma passive (hloop : roleOf r ≠ .forLoop)
    (hc : categoryOf r.left ∉ [Category.declaratorInit, .enumerator, .declaration, .blockOpen, .compoundStatement])
    (hwaits : name ∈ R.checker.waitingAll kind children →
      name ∈ R.checker.waiting kind (.node (i + 1) span annotations children)) {k : Option NameKind}
    (he : R.checker.evaluateAll k s children = .ok s') :
    R.checker.Keeps kind name ctx (.node (i + 1) span annotations children) s' := by
  obtain ⟨hknown, hserves⟩ := h.all hV h.serves he
  exact keeps_passive hV h.rule hknown (fun hname => hserves fun hall => hname (hwaits hall)) huse hloop hc

lemma suffixes (hc : categoryOf r.left ∈ [Category.directDeclarator, .directAbstractDeclarator]) {k : Option NameKind}
    (he : R.checker.evaluateParts k s children = .ok s') :
    R.checker.Keeps kind name ctx (.node (i + 1) span annotations children) s' := by
  have hmem := List.mem_of_getElem? h.rule
  obtain ⟨hknown, hserves⟩ := keeps_parts hV h.follow h.inner ((gathering r hmem).2 hc)
    (fun _ hc => h.timely.child hc) h.serves he
  have hne : categoryOf r.left ≠ .iterationStatement := by
    intro he
    rw [he] at hc
    revert hc
    decide
  refine keeps_passive hV h.rule hknown (fun _ => hserves) huse (ne_forLoop hmem hne) fun hc' => ?_
  revert hc hc'
  cases categoryOf r.left <;> decide

omit huse

lemma initDeclarator (hc : categoryOf r.left = .initDeclarator) {k : Option NameKind}
    (he : R.checker.evaluateInitialized (i + 1) k s annotations.declares children = .ok s') :
    R.checker.Keeps kind name ctx (.node (i + 1) span annotations children) s' := by
  obtain ⟨declarator, rest, rfl⟩ := List.exists_cons_of_ne_nil (children_ne_nil h.rule h.spells)
  rw [evaluateInitialized] at he
  obtain ⟨s₁, hed, he⟩ := Grammar.ok_of_bind he
  obtain ⟨s₂, hdeclare, he⟩ := Grammar.ok_of_bind he
  obtain ⟨y, ys, hd, hrest, hright⟩ := List.forall₂_cons_right_iff.mp h.follow
  have hinner := h.inner
  have hguarded := h.guarded
  rw [hright] at hinner hguarded
  rw [List.forall_mem_cons] at hinner
  have hdeclarator := hd.2 k ctx s s₁ hinner.1 (fun hstart => h.pending (settled_of_guarded hguarded hstart))
    (h.timely.child List.mem_cons_self) h.serves hed
  refine keeps_initDeclarator hV h.rule hc h.spells h.annotated h.timely hdeclarator hdeclare (fun hserves => ?_) he
  exact keepsAll_of_follows hV hrest hinner.2 (guarded_rest hguarded)
    (fun hsettles => pending_after hV hd.1 hsettles ctx) (fun _ hc => h.timely.child (List.mem_cons_of_mem _ hc))
    (List.pairwise_cons.mp h.timely.pairwise).2 hserves he

lemma enumerator (hc : categoryOf r.left = .enumerator) {k : Option NameKind}
    (he : R.checker.evaluateEnumerator (i + 1) k s children = .ok s') :
    R.checker.Keeps kind name ctx (.node (i + 1) span annotations children) s' := by
  obtain ⟨leaf, rest, rfl⟩ := List.exists_cons_of_ne_nil (children_ne_nil h.rule h.spells)
  rw [evaluateEnumerator] at he
  obtain ⟨s₁, hvalue, hdeclare⟩ := Grammar.ok_of_bind he
  rw [← evaluateAll_enumerator h.rule hc h.spells] at hvalue
  exact keeps_enumerator hV h.rule h.spells h.annotated (h.all hV h.serves hvalue) hc rfl hdeclare

end Entered

lemma Spells.follows (h : R.Spells x t) : R.Follows kind name x t := by
  refine h.induction (fun j place token htok k ctx s s' _ _ _ hserves he => ?_)
    fun i r span annotations children hr hchildren ha k ctx s s' htop hpending htimely hserves he => ?_
  · rw [Checker.evaluate] at he
    obtain rfl := Except.ok.inj he
    refine ⟨rfl, fun _ => ?_⟩
    rw [Scopes.Serves, after_leaf htok, kind?_contextAfter]
    exact hserves
  have hmem := List.mem_of_getElem? hr
  have hnode : R.Entered kind name ctx s i r span annotations children :=
    ⟨hr, hchildren, ha, htop, hpending, htimely, hserves⟩
  rw [Checker.evaluate, checker_role? hV hr, checker_category? hV hr] at he
  dsimp only at he
  cases huse : (roleOf r).use? with
  | some use =>
    rw [huse] at he
    exact hnode.expected hV huse he
  | none =>
    rw [huse] at he
    dsimp only at he
    split at he
    · rename_i hrole
      obtain rfl := Except.ok.inj he
      exact keeps_declaratorName hV hr hnode.spells hserves hrole
    cases hc : categoryOf r.left <;> rw [hc] at he <;> dsimp only at he
    case functionDefinition =>
      have hleft : r.left = "FunctionDefinition" := name_of_category hc (by decide) (by simp [Category.names])
      rw [hleft] at htop
      cases htop
    case compoundStatement => exact hnode.closed hV huse (Or.inl hc) he
    case iterationStatement =>
      split at he
      · rename_i hloop
        exact hnode.closed hV huse (Or.inr hloop) he
      · rename_i hloop
        exact hnode.passive hV huse hloop (by rw [hc]; decide)
          (fun hname => absurd hname (notMem_waitingAll hV hr hnode.spells (by rw [hc]; decide))) he
    case declaration => exact keeps_declaration hV hr hnode.spells ha (hnode.all hV hserves he) hc he
    case initDeclarator => exact hnode.initDeclarator hV hc he
    case parameterDeclaration =>
      obtain ⟨s₁, he, hdeclare⟩ := Grammar.ok_of_bind he
      exact keeps_parameter hV hr hnode.spells (hnode.all hV hserves he) hc hdeclare
    case directDeclarator | directAbstractDeclarator => exact hnode.suffixes hV huse (by rw [hc]; decide) he
    case enumerator => exact hnode.enumerator hV hc he
    case declaratorInit => exact keeps_declaratorInit hV hr hnode.spells (hnode.all hV hserves he) hc
    case blockOpen =>
      have hready : startsBlock (.nonterm r.left) = true := by
        rw [(blockOpen_right hmem hc).1]
        rfl
      exact keeps_blockOpen hV hr hnode.spells hserves (hpending hready) ha hc he
    case initDeclaratorList | parameterTypeList | parameterList =>
      refine hnode.passive hV huse (ne_forLoop hmem (by rw [hc]; decide)) (by rw [hc]; decide) (fun hname => ?_) he
      rw [waiting, checker_category hV hr, hc]
      exact hname
    all_goals
      exact hnode.passive hV huse (ne_forLoop hmem (by rw [hc]; decide)) (by rw [hc]; decide)
        (fun hname => absurd hname (notMem_waitingAll hV hr hnode.spells (by rw [hc]; decide))) he

lemma Spells.blockOpen_passes (h : R.Spells (n "BlockOpen") t) :
    (∀ k s, R.checker.evaluate k s t = .ok s) ∧
      ∀ ctx, R.checker.everywhere (R.checker.knowsName kind name) ctx t = true := by
  obtain ⟨i, r, span, annotations, children, rfl, hr, hleft, hchildren, -⟩ := h.nonterm_inv
  have hc : categoryOf r.left = .blockOpen := hleft ▸ rfl
  have hplain : categoryOf r.left ∉ [Category.other, .directDeclarator] := by
    rw [hc]
    decide
  obtain ⟨huse, hrole⟩ := role_plain (List.mem_of_getElem? hr) hplain
  rw [(blockOpen_right (List.mem_of_getElem? hr) hc).2] at hchildren
  obtain ⟨j, place, rfl, -⟩ := exists_leaf hchildren
  refine ⟨fun k s => ?_, fun ctx => ?_⟩
  · rw [Checker.evaluate, checker_role? hV hr, checker_category? hV hr, hc]
    dsimp only
    rw [huse]
    dsimp only
    rw [if_neg hrole, evaluateAll, evaluate]
    rfl
  · rw [everywhere_plain hV hr hplain]
    rfl

lemma known_body (h : R.Spells (n "CompoundStatement") t) (htimely : R.checker.Timely kind name t)
    (hserves : (bindAll ctx.scopes.push .ordinary (ctx.pending.getD [])).Serves s kind name)
    {k : Option NameKind} (he : R.checker.evaluateItems k s t = .ok s') :
    R.checker.everywhere (R.checker.knowsName kind name) ctx t = true := by
  obtain ⟨i, r, span, annotations, children, rfl, hr, hleft, hchildren, -⟩ := h.nonterm_inv
  have hc : categoryOf r.left = .compoundStatement := hleft ▸ rfl
  obtain ⟨rest, hright, htop, hguarded⟩ : ∃ rest, r.right = n "BlockOpen" :: rest ∧
      (∀ x ∈ rest, topLevel x = false) ∧ guarded true rest = true := by
    rcases compound_right (List.mem_of_getElem? hr) hc with hright | hright
    · exact ⟨_, hright, by decide, by decide⟩
    · exact ⟨_, hright, by decide, by decide⟩
  rw [hright] at hchildren
  obtain ⟨brace, items, hbrace, hitems, rfl⟩ := List.forall₂_cons_left_iff.mp hchildren
  obtain ⟨hnothing, hbraceKnown⟩ := hbrace.blockOpen_passes hV
  have hknown : R.checker.everywhere (R.checker.knowsName kind name) ctx brace = true := hbraceKnown ctx
  rw [evaluateItems, evaluateAll, hnothing] at he
  have hafter := after_blockOpen hV hbrace ctx
  have hrest : R.checker.KeepsAll kind name (R.checker.after ctx brace) items s' := by
    refine keepsAll_of_follows hV (hitems.imp fun {_ _} ht => ⟨ht, ht.follows hV⟩) htop hguarded ?_
      (fun c hc => htimely.child (List.mem_cons_of_mem _ hc)) (List.pairwise_cons.mp htimely.pairwise).2 ?_ he
    · rw [hafter]
      exact fun _ => rfl
    · rw [hafter]
      exact hserves
  rw [everywhere_plain hV hr (by rw [hc]; decide), everywhereAll, hknown, hrest.known, Bool.and_self]

lemma known_function (hr : rules[i]? = some r) (hc : categoryOf r.left = .functionDefinition)
    (hchildren : List.Forall₂ R.Spells r.right children)
    (htimely : R.checker.Timely kind name (.node (i + 1) span annotations children))
    (hserves : ctx.scopes.Serves s kind name) (houter : s.outer = [])
    (he : R.checker.evaluateFunction (i + 1) none s children = .ok s') :
    R.checker.everywhere (R.checker.knowsName kind name) ctx (.node (i + 1) span annotations children) = true ∧
      (R.checker.after ctx (.node (i + 1) span annotations children)).scopes.Serves s' kind name := by
  have hmem := List.mem_of_getElem? hr
  rw [functionDefinition_right hmem hc] at hchildren
  obtain ⟨specifiers, _, hspecifiers, hafter, rfl⟩ := List.forall₂_cons_left_iff.mp hchildren
  obtain ⟨declarator, _, hdeclarator, hlast, rfl⟩ := List.forall₂_cons_left_iff.mp hafter
  obtain ⟨body, _, hbody, hnil, rfl⟩ := List.forall₂_cons_left_iff.mp hlast
  obtain rfl := List.forall₂_nil_left_iff.mp hnil
  rw [evaluateFunction] at he
  obtain ⟨s₁, he₁, he⟩ := Grammar.ok_of_bind he
  obtain ⟨s₂, he₂, he⟩ := Grammar.ok_of_bind he
  obtain ⟨s₃, he₃, he⟩ := Grammar.ok_of_bind he
  obtain ⟨rfl, s₅, he⟩ := block_ok he
  obtain ⟨s₄, he₄, he⟩ := Grammar.ok_of_bind he
  have hkeeps₁ := hspecifiers.follows hV none ctx s s₁ rfl nofun (htimely.child (by simp)) hserves he₁
  have hserves₁ := hkeeps₁.serves (hspecifiers.notMem_waiting hV rfl)
  have hkeeps₂ := hdeclarator.follows hV none _ s₁ s₂ rfl nofun (htimely.child (by simp)) hserves₁ he₂
  have hserves₂ := hkeeps₂.serves (hdeclarator.notMem_waiting hV rfl)
  have houter₂ : s₂.outer = [] := by
    rw [(R.checker.surrounded_evaluate none s₁ declarator s₂ he₂).1,
      (R.checker.surrounded_evaluate none s specifiers s₁ he₁).1, houter]
  have hserves₃ := serves_declareAll hserves₂ houter₂ he₃
  -- On both sides the body begins with the parameters, each in a scope of its own.
  have hparameters : (bindAll (R.checker.after (R.checker.after ctx specifiers) declarator).scopes.push .ordinary
      ((R.checker.after (R.checker.after ctx specifiers) declarator).pending.getD [])).Serves s₄ kind name := by
    have hdeclares := declares_of_declareAll he₄
    rw [pending_declarator hV hdeclarator, Scopes.Serves, Scopes.kind?_bindAll]
    split
    · rename_i hname
      rw [Scopes.kind?_of_local? (hdeclares.local_eq name hname)]
      exact kind.serves_refl _
    · rename_i hname
      rw [hdeclares.kind_other name hname]
      exact hserves₃
  have hknown := known_body hV hbody (htimely.child (by simp)) hparameters he
  obtain ⟨j, q, span', annotations', items, rfl, hq, hleft, hitems, -⟩ := hbody.nonterm_inv
  have hclosed : ∀ c : Context, (R.checker.after c (.node (j + 1) span' annotations' items)).scopes = c.scopes :=
    scopes_after_closed hV hq (Or.inl (hleft ▸ rfl)) hitems
  refine ⟨?_, ?_⟩
  · rw [everywhere_plain hV hr (by rw [hc]; decide), everywhereAll, everywhereAll, everywhereAll, everywhereAll,
      hkeeps₁.known, hkeeps₂.known, hknown]
    rfl
  · rw [after_node hV hr, hc, scopes_advance (by decide) (ne_forLoop hmem (by rw [hc]; decide)), afterAll, afterAll,
      afterAll, afterAll, hclosed]
    exact hserves₃

omit hV in
lemma known_all (h : List.Forall₂ (fun _ t => ∀ (ctx : Context) (s s' : Scopes), R.checker.Timely kind name t →
      ctx.scopes.Serves s kind name → s.outer = [] → R.checker.evaluate none s t = .ok s' →
      R.checker.everywhere (R.checker.knowsName kind name) ctx t = true ∧
        (R.checker.after ctx t).scopes.Serves s' kind name) xs ts)
    (htimely : ∀ t ∈ ts, R.checker.Timely kind name t) (hserves : ctx.scopes.Serves s kind name) (houter : s.outer = [])
    (he : R.checker.evaluateAll none s ts = .ok s') :
    R.checker.everywhereAll (R.checker.knowsName kind name) ctx ts = true ∧
      (R.checker.afterAll ctx ts).scopes.Serves s' kind name := by
  induction h generalizing ctx s with
  | nil =>
    rw [evaluateAll] at he
    obtain rfl := Except.ok.inj he
    exact ⟨rfl, hserves⟩
  | @cons _ t _ ts ht _ ih =>
    rw [evaluateAll] at he
    obtain ⟨s₁, het, he⟩ := Grammar.ok_of_bind he
    rw [List.forall_mem_cons] at htimely
    obtain ⟨hknown, hserves⟩ := ht ctx s s₁ htimely.1 hserves houter het
    obtain ⟨hall, hserves⟩ := ih htimely.2 hserves
      ((R.checker.surrounded_evaluate none s t s₁ het).1.trans houter) he
    exact ⟨by rw [everywhereAll, hknown, hall, Bool.and_self], hserves⟩

lemma Spells.known (h : R.Spells x t) (hx : topLevel x = true ∨ x = n "Declaration") (ctx : Context) (s s' : Scopes)
    (htimely : R.checker.Timely kind name t) (hserves : ctx.scopes.Serves s kind name) (houter : s.outer = [])
    (he : R.checker.evaluate none s t = .ok s') :
    R.checker.everywhere (R.checker.knowsName kind name) ctx t = true ∧
      (R.checker.after ctx t).scopes.Serves s' kind name := by
  revert hx ctx s s' htimely
  refine h.induction (fun _ _ _ _ hx => ?_)
    fun i r span annotations children hr hchildren ha hx ctx s s' htimely hserves houter he => ?_
  · rcases hx with hx | hx <;> cases hx
  have hmem := List.mem_of_getElem? hr
  have hspells : List.Forall₂ R.Spells r.right children := hchildren.imp fun {_ _} h => h.1
  rcases hx with hx | hx
  · rcases (filing r hmem).1 hx with hc | ⟨hrole, hc, hright⟩
    · obtain ⟨huse, hrole⟩ := role_plain hmem (by rw [hc]; decide)
      rw [evaluate, checker_role? hV hr, checker_category? hV hr, hc] at he
      dsimp only at he
      rw [huse] at he
      dsimp only at he
      rw [if_neg hrole] at he
      exact known_function hV hr hc hspells htimely hserves houter he
    · have huse : (roleOf r).use? = none := by rw [hrole]; rfl
      rw [evaluate, checker_role? hV hr, checker_category? hV hr, hc] at he
      dsimp only at he
      rw [huse] at he
      dsimp only at he
      rw [if_neg (by rw [hrole]; decide)] at he
      have hparts := ((List.forall₂_and_left _ _).mpr ⟨hright, hchildren⟩).imp fun {_ _} h => h.2.2 h.1
      obtain ⟨hknown, hserves⟩ := known_all hparts (fun c hc => htimely.child hc) hserves houter he
      rw [everywhere_node hV hr huse, after_node hV hr, hc, scopes_advance (by decide) (by rw [hrole]; decide)]
      exact ⟨hknown, hserves⟩
  · have hspell : R.Spells (n "Declaration") (.node (i + 1) span annotations children) := hx ▸ .node hr hspells ha
    have hkeeps := hspell.follows hV none ctx s s' rfl nofun htimely hserves he
    exact ⟨hkeeps.known, hkeeps.serves (hspell.notMem_waiting hV rfl)⟩

end Standard

end Ramify.C.Reader
