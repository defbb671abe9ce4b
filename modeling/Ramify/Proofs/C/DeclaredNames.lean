import Ramify.Proofs.C.ServingScopes

namespace Ramify.C

lemma Checker.local?_evaluateAll {K : Checker} {k : Option NameKind} {kind : NameKind} {name : String} {c : Tree}
    {ts : List Tree} {s s' : Scopes} (h : K.evaluateAll k s ts = .ok s') (hc : c ∈ ts)
    (hlocal : ∀ s s', K.evaluate k s c = .ok s' → s'.local? name = some kind) : s'.local? name = some kind := by
  induction ts generalizing s with
  | nil => cases hc
  | cons t ts ih =>
    rw [evaluateAll] at h
    obtain ⟨s₁, ht, hts⟩ := Grammar.ok_of_bind h
    rcases List.mem_cons.mp hc with rfl | hc
    · exact (K.surrounded_evaluateAll k s₁ ts s' hts).2 name kind (hlocal s s₁ ht)
    · exact ih hts hc

namespace Reader

open Rules Checker

variable {R : Reader} {g : Grammar} {kind : NameKind} {name : String} {x : NamedSymbol} {t : Tree}
  {xs : List NamedSymbol} {ts children : List Tree} {ctx : Context} {s s' s₁ : Scopes} {i : Nat} {r : Rule}
  {span : Span} {annotations : Annotations}

lemma Spells.declares_eq_nil (h : R.Spells x t) (hx : sortOf x = some .other) : t.annotations.declares = [] := by
  cases h with
  | leaf => rfl
  | @node i r _ _ _ hr _ ha =>
    have hc : categoryOf r.left = .other := Option.some.inj hx
    have hrole := (shaped (List.mem_of_getElem? hr)).role_ne_name (by rw [hc]; decide)
    exact declares_nil_of_annotate hrole (by rw [hc]; rfl) (by rw [hc]; rfl) (by rw [hc]; decide) (by rw [hc]; decide) ha

section Standard

variable (hV : R.vocabulary.Standard g)

include hV

lemma categories_eq (h : List.Forall₂ R.Spells xs ts) :
    ts.map (Tree.category? R.vocabulary) = xs.map sortOf := by
  induction h with
  | nil => rfl
  | cons ht _ ih =>
    rw [List.map_cons, List.map_cons, ih, ← ht.category_eq hV]
    rfl

lemma declares_of_gathers (hr : rules[i]? = some r) (hchildren : List.Forall₂ R.Spells r.right children)
    (hg : (categoryOf r.left).gathers = true)
    (ha : R.annotate (roleOf r) (categoryOf r.left) (children.map Tree.part) = .ok annotations) :
    annotations.declares = children.flatMap fun c => c.annotations.declares := by
  have hshaped := shaped (List.mem_of_getElem? hr)
  have hrole : roleOf r ≠ .declaratorName := hshaped.role_ne_name fun hc => by
    rw [hc] at hg
    cases hg
  rw [declares_of_annotate hrole (Or.inr hg) ha, declaredBy_eq, List.filter_eq_self.mpr]
  intro c hc
  rw [bne_iff_ne]
  intro hsort
  refine hshaped.gathered hg ?_
  rw [← categories_eq hV hchildren, ← hsort]
  exact List.mem_map_of_mem hc

lemma Spells.declares_of_waiting (h : R.Spells x t) (hname : name ∈ R.checker.waiting kind t) :
    name ∈ t.annotations.declares.map Declared.name := by
  revert hname
  refine h.induction (fun _ _ _ _ => nofun) fun i r span annotations children hr hchildren ha hname => ?_
  have hlist : (categoryOf r.left).gathers = true → name ∈ R.checker.waitingAll kind children →
      name ∈ annotations.declares.map Declared.name := by
    intro hg hmem
    rw [declares_of_gathers hV hr (hchildren.imp fun {_ _} h => h.1) hg ha]
    obtain ⟨c, hc, hmem⟩ := mem_waitingAll.mp hmem
    rw [List.map_flatMap, List.mem_flatMap]
    obtain ⟨_, _, _, ih⟩ := exists_of_forall₂ hchildren c hc
    exact ⟨c, hc, ih hmem⟩
  rw [Checker.waiting, checker_category hV hr] at hname
  cases hc : categoryOf r.left <;> rw [hc] at hname hlist <;> dsimp only at hname
  case initDeclaratorList | parameterTypeList | parameterList => exact hlist rfl hname
  case initDeclarator =>
    split at hname
    · cases hname
    · exact hname
  case declaratorInit =>
    split at hname
    · cases hname
    · exact hname
  case parameterDeclaration => exact hname
  all_goals cases hname

lemma Spells.local?_evaluate (h : R.Spells x t)
    (hx : sortOf x = some .initDeclaratorList ∨ sortOf x = some .initDeclarator)
    (hname : name ∈ t.annotations.declares.map Declared.name) (s s' : Scopes)
    (he : R.checker.evaluate (some kind) s t = .ok s') : s'.local? name = some kind := by
  revert hx hname s s'
  refine h.induction (fun _ _ _ _ _ => nofun) fun i r span annotations children hr hchildren ha hx hname s s' he => ?_
  have hmem := List.mem_of_getElem? hr
  have hc : categoryOf r.left = .initDeclaratorList ∨ categoryOf r.left = .initDeclarator :=
    hx.imp Option.some.inj Option.some.inj
  obtain ⟨huse, hrole⟩ := role_plain hmem (by rcases hc with hc | hc <;> rw [hc] <;> decide)
  rw [Checker.evaluate, checker_role? hV hr, checker_category? hV hr] at he
  dsimp only at he
  rw [huse] at he
  dsimp only at he
  rw [if_neg hrole] at he
  rcases hc with hc | hc <;> rw [hc] at he <;> dsimp only at he
  · rw [Tree.annotations, declares_of_gathers hV hr (hchildren.imp fun {_ _} h => h.1) (by rw [hc]; rfl) ha,
      List.map_flatMap, List.mem_flatMap] at hname
    obtain ⟨c, hcmem, hname⟩ := hname
    obtain ⟨y, hy, hspells, ih⟩ := exists_of_forall₂ hchildren c hcmem
    have hsort := (declaring r hmem).2.2.1 hc y hy
    rw [List.mem_cons, List.mem_cons, List.mem_singleton] at hsort
    rcases hsort with hsort | hsort
    · cases hspells with
      | leaf => cases hname
      | node => cases hsort
    · exact local?_evaluateAll he hcmem (ih hsort hname)
  · cases children with
    | nil => exact absurd rfl (children_ne_nil hr hchildren)
    | cons d rest =>
      rw [evaluateInitialized] at he
      obtain ⟨s₁, -, he⟩ := Grammar.ok_of_bind he
      obtain ⟨s₂, hdeclare, he⟩ := Grammar.ok_of_bind he
      exact (R.checker.surrounded_evaluateAll _ s₂ rest s' he).2 name kind
        ((declares_of_declareAll hdeclare).local_eq name hname)

lemma waiting_declaratorInit (h : R.Spells (n "DeclaratorInit") t) :
    R.checker.waiting kind t = if kind = .ordinary then [] else t.annotations.declares.map Declared.name := by
  obtain ⟨i, r, span, annotations, children, rfl, hr, hleft, -, -⟩ := h.nonterm_inv
  have hc : categoryOf r.left = .declaratorInit := hleft ▸ rfl
  rw [Checker.waiting, checker_category hV hr, hc]
  rfl

lemma kind?_after_declaratorInit (h : R.Spells (n "DeclaratorInit") t)
    (hname : name ∈ t.annotations.declares.map Declared.name) :
    (R.checker.after ctx t).scopes.kind? name = some .ordinary := by
  rw [kind?_after hV h rfl, if_pos]
  obtain ⟨i, r, span, annotations, children, rfl, hr, hleft, -, -⟩ := h.nonterm_inv
  have hc : categoryOf r.left = .declaratorInit := hleft ▸ rfl
  rw [Tree.mem_names_node, Checker.bindsAt, checker_category hV hr, hc]
  exact Or.inl hname

section Node

variable (hr : rules[i]? = some r) (hchildren : List.Forall₂ R.Spells r.right children)

include hr hchildren

lemma mem_declares_of_declaration
    (ha : R.annotate (roleOf r) (categoryOf r.left) (children.map Tree.part) = .ok annotations)
    (hc : categoryOf r.left = .declaration) : name ∈ annotations.declares.map Declared.name ↔
      ∃ c ∈ children, c.category? R.checker.vocabulary = some .initDeclaratorList ∧
        name ∈ c.annotations.declares.map Declared.name := by
  have hmem := List.mem_of_getElem? hr
  rw [annotate_eq (role_plain hmem (by rw [hc]; decide)).2, hc] at ha
  rcases (declaring r hmem).2.1 hc with hright | hright <;> rw [hright] at hchildren
  all_goals
    obtain ⟨specifiers, _, hspecifiers, hrest, rfl⟩ := List.forall₂_cons_left_iff.mp hchildren
    have hsort : specifiers.category? R.checker.vocabulary = some .declarationSpecifiers := hspecifiers.category_eq hV
  · obtain ⟨semicolon, _, hsemicolon, hnil, rfl⟩ := List.forall₂_cons_left_iff.mp hrest
    obtain rfl := List.forall₂_nil_left_iff.mp hnil
    have hnone : semicolon.category? R.checker.vocabulary = none := hsemicolon.category_eq hV
    cases ha
    simp [hsort, hnone]
  · obtain ⟨list, _, hlist, hlast, rfl⟩ := List.forall₂_cons_left_iff.mp hrest
    obtain ⟨semicolon, _, hsemicolon, hnil, rfl⟩ := List.forall₂_cons_left_iff.mp hlast
    obtain rfl := List.forall₂_nil_left_iff.mp hnil
    have hsome : list.category? R.checker.vocabulary = some .initDeclaratorList := hlist.category_eq hV
    have hnone : semicolon.category? R.checker.vocabulary = none := hsemicolon.category_eq hV
    cases ha
    simp [hsort, hsome, hnone, part_annotations]

lemma declares_of_waitingAll
    (ha : R.annotate (roleOf r) (categoryOf r.left) (children.map Tree.part) = .ok annotations)
    (hc : categoryOf r.left = .declaration) (hname : name ∈ R.checker.waitingAll kind children) :
    name ∈ annotations.declares.map Declared.name := by
  obtain ⟨c, hcmem, hwaits⟩ := mem_waitingAll.mp hname
  obtain ⟨y, hy, hspells⟩ := exists_of_forall₂ hchildren c hcmem
  rw [mem_declares_of_declaration hV hr hchildren ha hc]
  refine ⟨c, hcmem, ?_, hspells.declares_of_waiting hV hwaits⟩
  rw [hspells.category_eq hV]
  have hsorts : ∀ y ∈ r.right, sortOf y = some .initDeclaratorList ∨ (sortOf y).any Category.gathers = false := by
    rcases (declaring r (List.mem_of_getElem? hr)).2.1 hc with hright | hright <;> rw [hright] <;> decide
  exact (hsorts y hy).resolve_right fun hnot => hspells.notMem_waiting hV hnot hwaits

lemma keeps_declaration (ha : R.annotate (roleOf r) (categoryOf r.left) (children.map Tree.part) = .ok annotations)
    (h : R.checker.KeepsAll kind name ctx children s') (hc : categoryOf r.left = .declaration)
    (he : R.checker.evaluateAll (some (if annotations.typedef then .typedef else .ordinary)) s children = .ok s') :
    R.checker.Keeps kind name ctx (.node (i + 1) span annotations children) s' where
  known := by
    rw [everywhere_plain hV hr (by rw [hc]; decide), h.known]
  serves _ := by
    rw [after_node hV hr, hc, advance, Scopes.Serves, Scopes.kind?_bindAll]
    by_cases hname : name ∈ annotations.declares.map Declared.name
    · obtain ⟨c, hcmem, hsort, hc'⟩ := (mem_declares_of_declaration hV hr hchildren ha hc).mp hname
      obtain ⟨y, _, hspells⟩ := exists_of_forall₂ hchildren c hcmem
      rw [hspells.category_eq hV] at hsort
      have hlocal := local?_evaluateAll he hcmem (hspells.local?_evaluate hV (Or.inl hsort) hc')
      rw [if_pos hname, Scopes.kind?_of_local? hlocal]
      exact kind.serves_refl _
    · rw [if_neg hname]
      exact h.serves fun hwaits => hname (declares_of_waitingAll hV hr hchildren ha hc hwaits)

lemma keeps_declaratorInit (h : R.checker.KeepsAll kind name ctx children s)
    (hc : categoryOf r.left = .declaratorInit) :
    R.checker.Keeps kind name ctx (.node (i + 1) span annotations children) s where
  known := by
    rw [everywhere_plain hV hr (by rw [hc]; decide), h.known]
  serves hname := by
    rw [waiting, checker_category hV hr, hc] at hname
    rw [after_node hV hr, hc, advance, Scopes.Serves, Scopes.kind?_bindAll]
    by_cases hmem : name ∈ annotations.declares.map Declared.name
    · cases kind with
      | typedef => exact absurd hmem hname
      | ordinary =>
        rw [if_pos hmem]
        exact NameKind.ordinary_serves _
    · rw [if_neg hmem]
      exact h.serves (notMem_waitingAll hV hr hchildren (by rw [hc]; decide))

lemma keeps_enumerator (ha : R.annotate (roleOf r) (categoryOf r.left) (children.map Tree.part) = .ok annotations)
    (h : R.checker.KeepsAll kind name ctx children s₁) (hc : categoryOf r.left = .enumerator)
    {leaf : Tree} {rest : List Tree} (hleaf : children = leaf :: rest)
    (he : declare s₁ .ordinary (R.checker.leafName leaf) = .ok s') :
    R.checker.Keeps kind name ctx (.node (i + 1) span annotations children) s' where
  known := by
    rw [everywhere_plain hV hr (by rw [hc]; decide), h.known]
  serves _ := by
    have hnot : name ∉ R.checker.waitingAll kind children := notMem_waitingAll hV hr hchildren (by rw [hc]; decide)
    have hdeclares := declares_of_declare he
    rw [annotate_eq (role_plain (List.mem_of_getElem? hr) (by rw [hc]; decide)).2, hc, hleaf] at ha
    obtain rfl := Except.ok.inj ha
    rw [after_node hV hr, hc, advance, Scopes.Serves, Scopes.kind?_bindAll, List.map_singleton, ← leafName_eq]
    by_cases hmem : name ∈ [(R.checker.leafName leaf).name]
    · rw [if_pos hmem, Scopes.kind?_of_local? (hdeclares.local_eq name hmem)]
      exact kind.serves_refl _
    · rw [if_neg hmem, hdeclares.kind_other name hmem]
      exact h.serves hnot

lemma keeps_parameter (h : R.checker.KeepsAll kind name ctx children s₁)
    (hc : categoryOf r.left = .parameterDeclaration) (he : declareAll s₁ .ordinary annotations.declares = .ok s') :
    R.checker.Keeps kind name ctx (.node (i + 1) span annotations children) s' where
  known := by
    rw [everywhere_plain hV hr (by rw [hc]; decide), h.known]
  serves hname := by
    rw [waiting, checker_category hV hr, hc] at hname
    rw [after_node hV hr, hc, Scopes.Serves, scopes_advance (by decide), (declares_of_declareAll he).kind_other name hname]
    · exact h.serves (notMem_waitingAll hV hr hchildren (by rw [hc]; decide))
    · exact ne_forLoop (List.mem_of_getElem? hr) (by rw [hc]; decide)

lemma keeps_blockOpen (hserves : ctx.scopes.Serves s kind name) (hpending : ctx.pending = none)
    (ha : R.annotate (roleOf r) (categoryOf r.left) (children.map Tree.part) = .ok annotations)
    (hc : categoryOf r.left = .blockOpen) {k : Option NameKind} (he : R.checker.evaluateAll k s children = .ok s') :
    R.checker.Keeps kind name ctx (.node (i + 1) span annotations children) s' := by
  obtain ⟨hleft, hright⟩ := blockOpen_right (List.mem_of_getElem? hr) hc
  have hspells : R.Spells (n "BlockOpen") (.node (i + 1) span annotations children) := hleft ▸ .node hr hchildren ha
  rw [hright] at hchildren
  obtain ⟨j, place, rfl, -⟩ := exists_leaf hchildren
  have hs : s = s' := by
    rw [evaluateAll, evaluate] at he
    exact Except.ok.inj he
  refine ⟨?_, fun _ => ?_⟩
  · rw [everywhere_plain hV hr (by rw [hc]; decide)]
    rfl
  · rw [after_blockOpen hV hspells, hpending, ← hs]
    exact hserves

end Node

section InitDeclarator

variable (hr : rules[i]? = some r) (hc : categoryOf r.left = .initDeclarator)

include hr hc

lemma scopes_after_initDeclarator {declarator : Tree} {rest : List Tree} :
    (R.checker.after ctx (.node (i + 1) span annotations (declarator :: rest))).scopes =
      (R.checker.afterAll (R.checker.after ctx declarator) rest).scopes := by
  have hloop : roleOf r ≠ .forLoop := ne_forLoop (List.mem_of_getElem? hr) (by rw [hc]; decide)
  rw [after_node hV hr, hc, scopes_advance (by decide) hloop, afterAll]

lemma waiting_initDeclarator : R.checker.waiting kind (.node (i + 1) span annotations children) =
    if kind = .ordinary ∧ 1 < children.length then [] else annotations.declares.map Declared.name := by
  rw [waiting, checker_category hV hr, hc]

lemma keeps_uninitialized {declarator : Tree} (hd : R.Spells (n "Declarator") declarator)
    (hdeclarator : R.checker.Keeps kind name ctx declarator s) {k : NameKind}
    (he : declareAll s k annotations.declares = .ok s') :
    R.checker.Keeps kind name ctx (.node (i + 1) span annotations [declarator]) s' where
  known := by
    rw [everywhere_plain hV hr (by rw [hc]; decide), everywhereAll, everywhereAll, hdeclarator.known, Bool.and_true]
  serves hname := by
    rw [waiting_initDeclarator hV hr hc, if_neg (by simp)] at hname
    rw [scopes_after_initDeclarator hV hr hc, afterAll, Scopes.Serves, (declares_of_declareAll he).kind_other name hname]
    exact hdeclarator.serves (hd.notMem_waiting hV rfl)

lemma keeps_initialized {declarator initializer : Tree} (hd : R.Spells (n "DeclaratorInit") declarator)
    (hi : R.Spells (n "Initializer") initializer)
    (hgathers : annotations.declares = declarator.annotations.declares)
    (htimely : R.checker.Timely kind name (.node (i + 1) span annotations [declarator, initializer]))
    (hdeclarator : R.checker.Keeps kind name ctx declarator s)
    {k : NameKind} (he : declareAll s k annotations.declares = .ok s₁)
    (hinitializer : (R.checker.after ctx declarator).scopes.Serves s₁ kind name →
      R.checker.KeepsAll kind name (R.checker.after ctx declarator) [initializer] s') :
    R.checker.Keeps kind name ctx (.node (i + 1) span annotations [declarator, initializer]) s' := by
  have hknown : R.checker.everywhere (R.checker.knowsName kind name) ctx
      (.node (i + 1) span annotations [declarator, initializer]) =
        R.checker.everywhereAll (R.checker.knowsName kind name) ctx [declarator, initializer] :=
    everywhere_plain hV hr (by rw [hc]; decide) ctx
  have hpassed : (R.checker.after ctx declarator).scopes.Serves s₁ kind name →
      R.checker.Keeps kind name ctx (.node (i + 1) span annotations [declarator, initializer]) s' := by
    intro hserves
    have hkeeps := hinitializer hserves
    refine ⟨?_, fun _ => ?_⟩
    · rw [hknown, everywhereAll, hdeclarator.known, hkeeps.known, Bool.and_self]
    · rw [scopes_after_initDeclarator hV hr hc]
      refine hkeeps.serves ?_
      rw [waitingAll, waitingAll, List.append_nil]
      exact hi.notMem_waiting hV rfl
  by_cases hname : name ∈ annotations.declares.map Declared.name
  · cases kind with
    | ordinary =>
      refine hpassed ?_
      rw [Scopes.Serves, kind?_after_declaratorInit hV hd (hgathers ▸ hname)]
      exact NameKind.ordinary_serves _
    | typedef =>
      have hwaits : name ∈ R.checker.waiting .typedef declarator := by
        rw [waiting_declaratorInit hV hd, if_neg (by decide), ← hgathers]
        exact hname
      have hnot := List.rel_of_pairwise_cons htimely.pairwise (List.mem_singleton_self initializer) hwaits
      refine ⟨?_, fun hout => absurd hname ?_⟩
      · rw [hknown, everywhereAll, everywhereAll, everywhereAll, hdeclarator.known, hi.everywhere_of_notMem hnot]
        rfl
      · rw [waiting_initDeclarator hV hr hc, if_neg (by simp)] at hout
        exact hout
  · refine hpassed ?_
    rw [Scopes.Serves, (declares_of_declareAll he).kind_other name hname]
    refine hdeclarator.serves fun hwaits => hname ?_
    rw [hgathers]
    exact hd.declares_of_waiting hV hwaits

lemma keeps_initDeclarator {declarator : Tree} {rest : List Tree}
    (hchildren : List.Forall₂ R.Spells r.right (declarator :: rest))
    (ha : R.annotate (roleOf r) (categoryOf r.left) ((declarator :: rest).map Tree.part) = .ok annotations)
    (htimely : R.checker.Timely kind name (.node (i + 1) span annotations (declarator :: rest)))
    (hdeclarator : R.checker.Keeps kind name ctx declarator s)
    {k : NameKind} (he : declareAll s k annotations.declares = .ok s₁)
    (hrest : (R.checker.after ctx declarator).scopes.Serves s₁ kind name →
      R.checker.KeepsAll kind name (R.checker.after ctx declarator) rest s')
    {k' : Option NameKind} (hvalues : R.checker.evaluateAll k' s₁ rest = .ok s') :
    R.checker.Keeps kind name ctx (.node (i + 1) span annotations (declarator :: rest)) s' := by
  have hgathers := declares_of_gathers hV hr hchildren (by rw [hc]; rfl) ha
  rcases (declaring r (List.mem_of_getElem? hr)).2.2.2.1 hc with hright | hright <;> rw [hright] at hchildren
  · obtain ⟨hd, hnil⟩ := List.forall₂_cons.mp hchildren
    obtain rfl := List.forall₂_nil_left_iff.mp hnil
    rw [evaluateAll] at hvalues
    obtain rfl := Except.ok.inj hvalues
    exact keeps_uninitialized hV hr hc hd hdeclarator he
  · obtain ⟨hd, hinitializer⟩ := List.forall₂_cons.mp hchildren
    obtain ⟨initializer, _, hi, hnil, rfl⟩ := List.forall₂_cons_left_iff.mp hinitializer
    obtain rfl := List.forall₂_nil_left_iff.mp hnil
    rw [List.flatMap_cons, List.flatMap_singleton, hi.declares_eq_nil rfl, List.append_nil] at hgathers
    exact keeps_initialized hV hr hc hd hi hgathers htimely hdeclarator he hrest

end InitDeclarator

end Standard

end Reader

end Ramify.C
