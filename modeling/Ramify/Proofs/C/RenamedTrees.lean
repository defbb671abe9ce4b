import Ramify.Proofs.C.BlockScopes
import Ramify.Proofs.C.Provisional
import Ramify.Proofs.C.Renaming

namespace Ramify.C

variable {ρ : String → String} {tokens : Array Token} {V : Vocabulary}

/-- The same tree over two texts, its names renamed; where a production reads a name off its first child,
that child is an identifier. -/
inductive Tree.Renamed (ρ : String → String) (tokens : Array Token) (V : Vocabulary) : Tree → Tree → Prop
  | leaf (token : Nat) (span span' : Span) : Renamed ρ tokens V (.leaf token span) (.leaf token span')
  | node (production : Nat) (span span' : Span) {x x' : Annotations} {children children' : List Tree} :
      Annotations.Renamed ρ tokens x x' →
      (ReadsName (V.role production) (V.category production) → Leads tokens (children.map Tree.part)) →
      List.Forall₂ (Renamed ρ tokens V) children children' →
      Renamed ρ tokens V (.node production span x children) (.node production span' x' children')

structure Tree.Entry.Renamed (ρ : String → String) (tokens : Array Token) (e e' : Tree.Entry) : Prop where
  kind_eq : e'.kind = e.kind
  parent_eq : e'.parent = e.parent
  children_eq : e'.children = e.children
  annotations : e.annotations.Renamed ρ tokens e'.annotations

namespace Tree.Renamed

variable {t t' : Tree}

lemma part (h : t.Renamed ρ tokens V t') : t.part.Renamed ρ tokens t'.part := by
  cases h with
  | leaf token span span' => exact ⟨rfl, .empty⟩
  | node production span span' hx _ _ => exact ⟨rfl, hx⟩

lemma annotations (h : t.Renamed ρ tokens V t') : t.annotations.Renamed ρ tokens t'.annotations := by
  cases h with
  | leaf token span span' => exact .empty
  | node production span span' hx _ _ => exact hx

lemma children (h : t.Renamed ρ tokens V t') : List.Forall₂ (Tree.Renamed ρ tokens V) t.children t'.children := by
  cases h with
  | leaf token span span' => exact .nil
  | node production span span' _ _ hchildren => exact hchildren

mutual

lemma size_eq : ∀ {t t' : Tree}, t.Renamed ρ tokens V t' → t'.size = t.size
  | .leaf _ _, _, h => by
    cases h with
    | leaf token span span' => rfl
  | .node _ _ _ children, _, h => by
    cases h with
    | node production span span' _ _ hchildren => rw [Tree.size, Tree.size, sizes_eq hchildren]

lemma sizes_eq : ∀ {ts ts' : List Tree}, List.Forall₂ (Tree.Renamed ρ tokens V) ts ts' →
    Tree.sizes ts' = Tree.sizes ts
  | [], _, h => by
    cases h
    rfl
  | t :: rest, _, h => by
    cases h with
    | cons ht hrest => rw [Tree.sizes, Tree.sizes, size_eq ht, sizes_eq hrest]

end

lemma childNumbers_eq (first : Nat) {ts ts' : List Tree} (h : List.Forall₂ (Tree.Renamed ρ tokens V) ts ts') :
    childNumbers first ts' = childNumbers first ts := by
  induction h generalizing first with
  | nil => rfl
  | cons ht _ ih => rw [childNumbers, childNumbers, ht.size_eq, ih]

mutual

lemma entriesFrom (parent : Option Nat) (number : Nat) : ∀ {t t' : Tree}, t.Renamed ρ tokens V t' →
    List.Forall₂ (Entry.Renamed ρ tokens) (t.entriesFrom parent number) (t'.entriesFrom parent number)
  | .leaf _ _, _, h => by
    cases h with
    | leaf token span span' => exact .cons ⟨rfl, rfl, rfl, .empty⟩ .nil
  | .node _ _ _ children, _, h => by
    cases h with
    | node production span span' hx _ hchildren =>
      rw [Tree.entriesFrom, Tree.entriesFrom, childNumbers_eq _ hchildren]
      exact .cons ⟨rfl, rfl, rfl, hx⟩ (childEntries number (number + 1) hchildren)

lemma childEntries (parent first : Nat) : ∀ {ts ts' : List Tree}, List.Forall₂ (Tree.Renamed ρ tokens V) ts ts' →
    List.Forall₂ (Entry.Renamed ρ tokens) (Tree.childEntries parent first ts) (Tree.childEntries parent first ts')
  | [], _, h => by
    cases h
    exact .nil
  | t :: rest, _, h => by
    cases h with
    | cons ht hrest =>
      rw [Tree.childEntries, Tree.childEntries, size_eq ht]
      exact List.rel_append (entriesFrom (some parent) first ht) (childEntries parent _ hrest)

end

lemma entries (h : t.Renamed ρ tokens V t') : List.Forall₂ (Entry.Renamed ρ tokens) t.entries t'.entries :=
  entriesFrom none 0 h

end Tree.Renamed

structure ScopeError.Renamed (ρ : String → String) (e e' : ScopeError) : Prop where
  kind_eq : e'.kind = e.kind
  name_eq : e'.name = ρ e.name

inductive Fault.Renamed (ρ : String → String) : Fault → Fault → Prop
  | scope {e e' : ScopeError} : e.Renamed ρ e' → Renamed ρ (.scope e) (.scope e')
  | undefined (production : Nat) : Renamed ρ (.undefined production) (.undefined production)

inductive Work.Renamed (ρ : String → String) (tokens : Array Token) (V : Vocabulary) : Work → Work → Prop
  | visit {t t' : Tree} : t.Renamed ρ tokens V t' → Renamed ρ tokens V (.visit t) (.visit t')
  | push : Renamed ρ tokens V .push .push
  | pop : Renamed ρ tokens V .pop .pop
  | declareNames {t t' : Tree} (kind : Option NameKind) : t.Renamed ρ tokens V t' →
      Renamed ρ tokens V (.declareNames t kind) (.declareNames t' kind)
  | declareParams {t t' : Tree} : t.Renamed ρ tokens V t' → Renamed ρ tokens V (.declareParams t) (.declareParams t')
  | declareLeaf {t t' : Tree} : t.Renamed ρ tokens V t' → Leads tokens [t.part] →
      Renamed ρ tokens V (.declareLeaf t) (.declareLeaf t')
  | setDeclaration (kind : Option NameKind) : Renamed ρ tokens V (.setDeclaration kind) (.setDeclaration kind)

structure Walk.Renamed (ρ : String → String) (tokens : Array Token) (w w' : Walk) : Prop where
  scopes : w.scopes.Renamed ρ tokens w'.scopes
  declaration_eq : w'.declaration = w.declaration

structure Checker.Sorted.Renamed (ρ : String → String) (tokens : Array Token) (V : Vocabulary)
    (s s' : Checker.Sorted) : Prop where
  survivors : List.Forall₂ (Tree.Renamed ρ tokens V) s.survivors s'.survivors
  rejected : List.Forall₂ (fun r r' => r'.1 = r.1 ∧ r.2.Renamed ρ r'.2) s.rejected s'.rejected

namespace Work

lemma renamed_visits {ts ts' : List Tree} (h : List.Forall₂ (Tree.Renamed ρ tokens V) ts ts') :
    List.Forall₂ (Work.Renamed ρ tokens V) (visits ts) (visits ts') :=
  List.rel_map (fun _ _ ht => .visit ht) h

lemma renamed_enclosed {todo todo' : List Work} (h : List.Forall₂ (Work.Renamed ρ tokens V) todo todo') :
    List.Forall₂ (Work.Renamed ρ tokens V) (enclosed todo) (enclosed todo') :=
  .cons .push (List.rel_append h (.cons .pop .nil))

end Work

lemma Leads.head {part : Part} {parts : List Part} (h : Leads tokens (part :: parts)) : Leads tokens [part] := h

lemma Scopes.Renamed.lookupLocal {tokens' : Array Token} (h : Renames ρ tokens tokens') {s s' : Scopes}
    (hs : s.Renamed ρ tokens s') {name : String} (hn : Named tokens name) :
    (s'.lookupLocal (ρ name)).map Binding.kind = (s.lookupLocal name).map Binding.kind :=
  hs.inner.lookup h hn

namespace Reader.Renamed

variable {R R' : Reader} (h : R.Renamed ρ R') {s s' : Scopes} (hs : s.Renamed ρ R.tokens s')

include h hs

lemma declare {d d' : Declared} (hd : d.Renamed ρ R.tokens d') (kind : NameKind) :
    Corresponds (Fault.Renamed ρ) (Scopes.Renamed ρ R.tokens) (Checker.declare s kind d) (Checker.declare s' kind d') := by
  have hlocal := hs.lookupLocal h.tokens hd.named
  rw [Checker.declare, Checker.declare, Scopes.declare, Scopes.declare, hd.name_eq]
  cases hl : s.lookupLocal d.name with
  | none =>
    rw [hl, Option.map_none, Option.map_eq_none_iff] at hlocal
    rw [hlocal]
    exact .ok (hd.name_eq ▸ hs.bind hd kind)
  | some binding =>
    rw [hl, Option.map_some, Option.map_eq_some_iff] at hlocal
    obtain ⟨binding', hl', hkind⟩ := hlocal
    rw [hl']
    dsimp only
    rw [hkind]
    by_cases hb : binding.kind = kind
    · rw [if_pos hb, if_pos hb]
      exact .ok hs
    · rw [if_neg hb, if_neg hb]
      exact .error (.scope ⟨rfl, rfl⟩)

lemma declareAll {names names' : List Declared} (hnames : List.Forall₂ (Declared.Renamed ρ R.tokens) names names')
    (kind : NameKind) : Corresponds (Fault.Renamed ρ) (Scopes.Renamed ρ R.tokens) (Checker.declareAll s kind names)
      (Checker.declareAll s' kind names') := by
  induction hnames generalizing s s' with
  | nil => exact .ok hs
  | cons hd _ ih =>
    rw [Checker.declareAll, Checker.declareAll, List.foldlM_cons, List.foldlM_cons]
    exact (h.declare hs hd kind).bind fun _ _ hs => ih hs

omit hs in
lemma leafName {t t' : Tree} (ht : t.Renamed ρ R.tokens R.vocabulary t') (hl : Leads R.tokens [t.part]) :
    (R.checker.leafName t).Renamed ρ R.tokens (R'.checker.leafName t') := by
  obtain ⟨i, token, hkind, htoken, hid⟩ := hl _ rfl
  rw [leafName_eq, leafName_eq]
  exact h.identifier ht.part hkind htoken hid

lemma expect {children children' : List Tree}
    (hchildren : List.Forall₂ (Tree.Renamed ρ R.tokens R.vocabulary) children children')
    (hl : Leads R.tokens (children.map Tree.part)) (p : Nat) (kind : NameKind) :
    Corresponds (Fault.Renamed ρ) (fun _ _ => True) (R.checker.expect p s kind children)
      (R'.checker.expect p s' kind children') := by
  cases hchildren with
  | nil => exact .error (.undefined p)
  | cons ht _ =>
    have hd := h.leafName ht hl.head
    have hlookup := hs.lookup h.tokens hd.named
    rw [Checker.expect, Checker.expect, hd.name_eq]
    cases hfound : s.lookup (R.checker.leafName _).name with
    | none =>
      rw [hfound, Option.map_none, Option.map_eq_none_iff] at hlookup
      rw [hlookup]
      exact .error (.scope ⟨rfl, rfl⟩)
    | some binding =>
      rw [hfound, Option.map_some, Option.map_eq_some_iff] at hlookup
      obtain ⟨binding', hfound', hkind⟩ := hlookup
      rw [hfound']
      dsimp only
      rw [hkind]
      split
      · exact .ok trivial
      · exact .error (.scope ⟨rfl, rfl⟩)

section Plan

variable {p : Nat} {t t' : Tree}

omit h hs

lemma planFunction {children children' : List Tree}
    (hchildren : List.Forall₂ (Tree.Renamed ρ tokens V) children children') :
    Corresponds (Fault.Renamed ρ) (List.Forall₂ (Work.Renamed ρ tokens V)) (Checker.planFunction p children)
      (Checker.planFunction p children') := by
  rcases hchildren with _ | ⟨hspecifiers, _ | ⟨hdeclarator, _ | ⟨hbody, _⟩⟩⟩
  · exact .error (.undefined p)
  · exact .error (.undefined p)
  · exact .error (.undefined p)
  · exact .ok (.cons (.visit hspecifiers) (.cons (.visit hdeclarator) (.cons (.declareNames _ hdeclarator)
      (Work.renamed_enclosed (.cons (.declareParams hdeclarator) (Work.renamed_visits hbody.children))))))

lemma planInitialized (ht : t.Renamed ρ tokens V t') {children children' : List Tree}
    (hchildren : List.Forall₂ (Tree.Renamed ρ tokens V) children children') :
    Corresponds (Fault.Renamed ρ) (List.Forall₂ (Work.Renamed ρ tokens V)) (Checker.planInitialized p t children)
      (Checker.planInitialized p t' children') := by
  cases hchildren with
  | nil => exact .error (.undefined p)
  | cons hdeclarator hrest =>
    exact .ok (.cons (.visit hdeclarator) (.cons (.declareNames _ ht) (Work.renamed_visits hrest)))

lemma planEnumerator {children children' : List Tree}
    (hchildren : List.Forall₂ (Tree.Renamed ρ tokens V) children children') (hl : Leads tokens (children.map Tree.part)) :
    Corresponds (Fault.Renamed ρ) (List.Forall₂ (Work.Renamed ρ tokens V)) (Checker.planEnumerator p children)
      (Checker.planEnumerator p children') := by
  cases hchildren with
  | nil => exact .error (.undefined p)
  | cons hname hrest =>
    exact .ok (List.rel_append (Work.renamed_visits hrest) (.cons (.declareLeaf hname hl.head) .nil))

include h

lemma suffixWork (ht : t.Renamed ρ R.tokens R.vocabulary t') :
    List.Forall₂ (Work.Renamed ρ R.tokens R.vocabulary) (R.checker.suffixWork t) (R'.checker.suffixWork t') := by
  have hvisit : List.Forall₂ (Work.Renamed ρ R.tokens R.vocabulary) [.visit t] [.visit t'] := .cons (.visit ht) .nil
  have hlist : R'.checker.isParameterList t' = R.checker.isParameterList t := by
    cases ht with
    | leaf token span span' => rfl
    | node production span span' _ _ _ =>
      rw [Checker.isParameterList, Checker.isParameterList]
      exact congrArg (fun V : Vocabulary => V.category production == .parameterTypeList) h.vocabulary_eq
  rw [Checker.suffixWork, Checker.suffixWork, hlist]
  split
  · exact Work.renamed_enclosed hvisit
  · exact hvisit

lemma plan (declaration : Option NameKind) (role : Role) {category : Category}
    (ht : t.Renamed ρ R.tokens R.vocabulary t')
    (hl : category = .enumerator → Leads R.tokens (t.children.map Tree.part)) :
    Corresponds (Fault.Renamed ρ) (List.Forall₂ (Work.Renamed ρ R.tokens R.vocabulary))
      (R.checker.plan declaration p role t category) (R'.checker.plan declaration p role t' category) := by
  have hvisits := Work.renamed_visits ht.children
  rw [Checker.plan.eq_def, Checker.plan.eq_def, ht.annotations.typedef_eq]
  cases category
  case functionDefinition => exact planFunction ht.children
  case compoundStatement => exact .ok (Work.renamed_enclosed hvisits)
  case iterationStatement =>
    dsimp only
    split
    · exact .ok (Work.renamed_enclosed hvisits)
    · exact .ok hvisits
  case declaration =>
    exact .ok (.cons (.setDeclaration _) (List.rel_append hvisits (.cons (.setDeclaration _) .nil)))
  case initDeclarator => exact planInitialized ht ht.children
  case parameterDeclaration => exact .ok (List.rel_append hvisits (.cons (.declareNames _ ht) .nil))
  case directDeclarator | directAbstractDeclarator =>
    exact .ok (List.rel_flatMap ht.children fun _ _ ht => h.suffixWork ht)
  case enumerator => exact planEnumerator ht.children (hl rfl)
  all_goals exact .ok hvisits

end Plan

variable {w w' : Walk} {work work' : Work}

omit hs

lemma visit (hw : w.Renamed ρ R.tokens w') {t t' : Tree} (ht : t.Renamed ρ R.tokens R.vocabulary t') :
    Corresponds (Fault.Renamed ρ) (List.Forall₂ (Work.Renamed ρ R.tokens R.vocabulary)) (R.checker.visit w t)
      (R'.checker.visit w' t') := by
  cases ht with
  | leaf token span span' => exact .ok .nil
  | node production span span' hx hl hchildren =>
    have hvocabulary : R'.checker.vocabulary = R.vocabulary := h.vocabulary_eq
    have hvocabulary' : R.checker.vocabulary = R.vocabulary := rfl
    rw [Checker.visit, Checker.visit, hvocabulary, hvocabulary', hw.declaration_eq]
    cases hrole : R.vocabulary.role? production with
    | none => exact .error (.undefined production)
    | some role =>
      rw [Vocabulary.role_of_role? hrole] at hl
      dsimp only
      cases huse : role.use? with
      | some kind =>
        have hleads := hl (Or.inl (by rw [huse]; rfl))
        exact (h.expect hw.scopes hchildren hleads production kind).map fun _ _ _ => .nil
      | none =>
        dsimp only
        split
        · exact .ok .nil
        cases hcategory : R.vocabulary.category? production with
        | none => exact .error (.undefined production)
        | some category =>
          rw [Vocabulary.category_of_category? hcategory] at hl
          refine h.plan _ role ?_ fun hc => hl (Or.inr (Or.inr hc))
          refine .node production span span' hx (fun hreads => hl ?_) hchildren
          rwa [Vocabulary.role_of_role? hrole, Vocabulary.category_of_category? hcategory] at hreads

lemma step (hw : w.Renamed ρ R.tokens w') (hwork : work.Renamed ρ R.tokens R.vocabulary work') :
    Corresponds (Fault.Renamed ρ)
      (fun r r' => r.1.Renamed ρ R.tokens r'.1 ∧ List.Forall₂ (Work.Renamed ρ R.tokens R.vocabulary) r.2 r'.2)
      (R.checker.step w work) (R'.checker.step w' work') := by
  obtain ⟨scopes, declaration⟩ := w
  obtain ⟨scopes', _⟩ := w'
  obtain ⟨hs, rfl⟩ := hw
  cases hwork with
  | visit ht => exact (h.visit ⟨hs, rfl⟩ ht).map fun _ _ htodo => ⟨⟨hs, rfl⟩, htodo⟩
  | push => exact .ok ⟨⟨hs.push, rfl⟩, .nil⟩
  | pop => exact .ok ⟨⟨hs.pop, rfl⟩, .nil⟩
  | declareNames kind ht => exact (h.declareAll hs ht.annotations.declares _).map fun _ _ hs => ⟨⟨hs, rfl⟩, .nil⟩
  | @declareParams t t' ht =>
    have hparams : List.Forall₂ (Declared.Renamed ρ R.tokens) (t.annotations.params.getD [])
        (t'.annotations.params.getD []) := by
      have hrel := ht.annotations.params
      generalize t.annotations.params = x at hrel
      generalize t'.annotations.params = x' at hrel
      cases hrel with
      | none => exact .nil
      | some hnames => exact hnames
    exact (h.declareAll hs hparams _).map fun _ _ hs => ⟨⟨hs, rfl⟩, .nil⟩
  | declareLeaf ht hl => exact (h.declare hs (h.leafName ht hl) _).map fun _ _ hs => ⟨⟨hs, rfl⟩, .nil⟩
  | setDeclaration kind => exact .ok ⟨⟨hs, rfl⟩, .nil⟩

lemma run {todo todo' : List Work} (hw : w.Renamed ρ R.tokens w')
    (htodo : List.Forall₂ (Work.Renamed ρ R.tokens R.vocabulary) todo todo') :
    Corresponds (Fault.Renamed ρ) (Walk.Renamed ρ R.tokens) (R.checker.run w todo) (R'.checker.run w' todo') := by
  fun_induction Checker.run R.checker w todo generalizing w' todo' with
  | case1 w =>
    cases htodo
    rw [Checker.run]
    exact .ok hw
  | case2 w work rest e he =>
    obtain ⟨work', rest', hwork, _, rfl⟩ := List.forall₂_cons_left_iff.mp htodo
    have hstep := h.step hw hwork
    rw [he] at hstep
    rw [Checker.run_cons]
    revert hstep
    generalize R'.checker.step w' work' = made'
    rintro (he' | _)
    exact .error he'
  | case3 w work rest w₁ todo he ih =>
    obtain ⟨work', rest', hwork, hrest, rfl⟩ := List.forall₂_cons_left_iff.mp htodo
    have hstep := h.step hw hwork
    rw [he] at hstep
    rw [Checker.run_cons]
    revert hstep
    generalize R'.checker.step w' work' = made'
    rintro (_ | ⟨hw₁, hmore⟩)
    exact ih hw₁ (List.rel_append hmore hrest)

lemma check {t t' : Tree} (ht : t.Renamed ρ R.tokens R.vocabulary t') :
    Corresponds (Fault.Renamed ρ) (fun _ _ => True) (R.checker.check t) (R'.checker.check t') := by
  have hstart : Walk.Renamed ρ R.tokens {} {} := ⟨⟨.nil, .nil⟩, rfl⟩
  exact (h.run hstart (.cons (.visit ht) .nil)).bind fun _ _ _ => .ok trivial

lemma sortFrom {trees trees' : List Tree} (first : Nat)
    (htrees : List.Forall₂ (Tree.Renamed ρ R.tokens R.vocabulary) trees trees') :
    Corresponds Eq (Checker.Sorted.Renamed ρ R.tokens R.vocabulary) (R.checker.sortFrom first trees)
      (R'.checker.sortFrom first trees') := by
  induction htrees generalizing first with
  | nil => exact .ok ⟨.nil, .nil⟩
  | cons ht _ ih =>
    have hcheck := h.check ht
    rw [Checker.sortFrom, Checker.sortFrom]
    revert hcheck
    generalize R.checker.check _ = x
    generalize R'.checker.check _ = x'
    rintro (he | _)
    · cases he with
      | scope he =>
        exact (ih (first + 1)).bind fun _ _ hs => .ok ⟨hs.survivors, .cons ⟨rfl, he⟩ hs.rejected⟩
      | undefined p => exact .error rfl
    · exact (ih (first + 1)).bind fun _ _ hs => .ok ⟨.cons ht hs.survivors, hs.rejected⟩

end Reader.Renamed

end Ramify.C
