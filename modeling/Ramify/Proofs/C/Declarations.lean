import Ramify.Proofs.C.Declarators
import Ramify.Proofs.C.SketchedTexts

/-! What the annotations of declarations say. A list of specifiers is a chain of lists with one specifier at each
link, and what is noted at its head is what these specifiers add up to. With that and what is known of declarators,
the annotations of every node of a finished tree are those that its shape calls for. -/

namespace Ramify.C

namespace Vocabulary

variable (V : Vocabulary) (tokens : Array Token)

def isSpecifiers (t : Tree) : Bool := (t.category? V).any Category.isSpecifiers

def isTypeSpecifier (t : Tree) : Bool := t.category? V == some .typeSpecifier

def isTypeName : Tree → Bool
  | .leaf _ _ => false
  | .node p _ _ _ => V.role p == .namedType

mutual

/-- The specifiers of a list, through the lists it is continued by but into no specifier. -/
def specifiers : Tree → List Tree
  | .leaf _ _ => []
  | .node _ _ _ children => specifiersOf children

def specifiersOf : List Tree → List Tree
  | [] => []
  | t :: ts => (if V.isSpecifiers t then specifiers t else [t]) ++ specifiersOf ts

end

end Vocabulary

def Tree.IsTypedef (tokens : Array Token) (t : Tree) : Prop :=
  ∃ i span token, t.children = [.leaf i span] ∧ token.kind = .keyword .typedef ∧ tokens[i]? = some token

structure Vocabulary.Sums (V : Vocabulary) (tokens : Array Token) (specifiers : List Tree) (spec : Specifiers)
    (typedef : Bool) : Prop where
  types_eq : spec.types = specifiers.countP V.isTypeSpecifier
  named_eq : spec.named = specifiers.any V.isTypeName
  typedef_iff : typedef = true ↔ ∃ c ∈ specifiers, c.IsTypedef tokens

namespace Vocabulary

variable {V : Vocabulary} {tokens : Array Token}

lemma sums_nil : V.Sums tokens [] {} false := ⟨rfl, rfl, by simp⟩

lemma Sums.append {l l' : List Tree} {s s' : Specifiers} {b b' : Bool} (h : V.Sums tokens l s b)
    (h' : V.Sums tokens l' s' b') : V.Sums tokens (l ++ l') (s.add s') (b || b') where
  types_eq := by rw [Specifiers.add, h.types_eq, h'.types_eq, List.countP_append]
  named_eq := by rw [Specifiers.add, h.named_eq, h'.named_eq, List.any_append]
  typedef_iff := by
    rw [Bool.or_eq_true, h.typedef_iff, h'.typedef_iff]
    simp only [List.mem_append, or_and_right, exists_or]

lemma foldl_add (s : Specifiers) (parts : List Part) :
    parts.foldl (fun s part => s.add part.annotations.spec) s =
      s.add (parts.foldl (fun s part => s.add part.annotations.spec) {}) := by
  induction parts generalizing s with
  | nil => simp [Specifiers.add]
  | cons part parts ih =>
    rw [List.foldl_cons, List.foldl_cons, ih, ih (Specifiers.add {} _)]
    simp [Specifiers.add, Nat.add_assoc, Bool.or_assoc]

lemma sums_children {children : List Tree} (h : ∀ c ∈ children,
    V.Sums tokens (if V.isSpecifiers c then V.specifiers c else [c]) c.annotations.spec c.annotations.typedef) :
    V.Sums tokens (V.specifiersOf children)
      ((children.map Tree.part).foldl (fun s part => s.add part.annotations.spec) {})
      ((children.map Tree.part).any fun part => part.annotations.typedef) := by
  induction children with
  | nil => exact sums_nil
  | cons c children ih =>
    rw [List.forall_mem_cons] at h
    have hsums := h.1.append (ih h.2)
    rw [specifiersOf, List.map_cons, List.foldl_cons, foldl_add, List.any_cons, Reader.part_annotations]
    have hzero : Specifiers.add {} c.annotations.spec = c.annotations.spec := by simp [Specifiers.add]
    rw [hzero]
    exact hsums

end Vocabulary

namespace Reader

variable {R : Reader} {role : Role} {category : Category} {annotations : Annotations} {parts : List Part}

lemma specifiers_of_annotate (hname : role ≠ .declaratorName) (hstorage : role ≠ .typedefStorage)
    (hnamed : role ≠ .namedType) (hc : category.isSpecifiers) (h : R.annotate role category parts = .ok annotations) :
    annotations.spec = parts.foldl (fun s part => s.add part.annotations.spec) {} ∧
      annotations.typedef = parts.any fun part => part.annotations.typedef := by
  rw [annotate_eq hname, if_neg hnamed, beq_false_of_ne hstorage] at h
  cases category <;> first | exact absurd hc (by decide) | (cases h; exact ⟨rfl, rfl⟩)

lemma typedef_of_annotate (hname : role ≠ .declaratorName) {part : Part} {rest : List Part}
    (h : R.annotate role .declaration (part :: rest) = .ok annotations) :
    annotations.typedef = part.annotations.typedef := by
  rw [annotate_eq hname] at h
  cases h
  rfl

lemma marks_of_annotate (hc : category.isSpecifiers = false) (hd : category ≠ .declaration)
    (hnamed : role = .namedType → category = .typeSpecifier) (h : R.annotate role category parts = .ok annotations) :
    annotations.typedef = (role == .typedefStorage) ∧
      annotations.spec = ⟨if category = .typeSpecifier then 1 else 0, role == .namedType⟩ := by
  by_cases hname : role = .declaratorName
  · subst hname
    rcases parts with _ | ⟨part, rest⟩
    · cases h
    · cases category <;> first | exact absurd hc (by decide) | exact absurd rfl hd | (cases h; exact ⟨rfl, rfl⟩)
  rw [annotate_eq hname] at h
  by_cases hrole : role = .namedType
  · obtain rfl := hnamed hrole
    subst hrole
    cases h
    exact ⟨rfl, rfl⟩
  · rw [if_neg hrole] at h
    rw [beq_false_of_ne hrole]
    cases category
    case typeSpecifier =>
      obtain rfl := Except.ok.inj h
      rw [if_neg hrole]
      exact ⟨rfl, rfl⟩
    case enumerator =>
      obtain ⟨d, _, h⟩ := Grammar.ok_of_bind h
      cases h
      exact ⟨rfl, rfl⟩
    all_goals first | exact absurd hc (by decide) | exact absurd rfl hd | (cases h; exact ⟨rfl, rfl⟩)

section Formed

variable {x : Symbol} {t : Tree} {i : ℕ} {p : Production} {span : Span} {children : List Tree}

lemma isTypedef_iff (hV : R.vocabulary.Declarative) (hp : R.vocabulary.table.productions[i]? = some p)
    (hchildren : List.Forall₂ R.Forms p.rhs children) :
    (Tree.node i span annotations children).IsTypedef R.tokens ↔ R.vocabulary.role i = .typedefStorage := by
  constructor
  · rintro ⟨j, place, token, hleaf, hkind, htoken⟩
    obtain rfl : children = _ := hleaf
    obtain ⟨token', y, htoken', hy, hrhs, _⟩ := forms_leaf hchildren
    obtain rfl := Option.some.inj (htoken.symm.trans htoken')
    exact (hV.storage_iff i p y token.kind hp hrhs hy).mpr hkind
  · intro hrole
    obtain ⟨j, place, rfl⟩ := exists_leaf_of_sorts ((shaped_children hV hp hchildren).storage hrole).2
    obtain ⟨token, y, htoken, hy, hrhs, _⟩ := forms_leaf hchildren
    exact ⟨j, place, token, rfl, (hV.storage_iff i p y token.kind hp hrhs hy).mp hrole, htoken⟩

lemma Forms.sums_self (hV : R.vocabulary.Declarative) (h : R.Forms x t) (hs : R.vocabulary.isSpecifiers t = false)
    (hd : t.category? R.vocabulary ≠ some .declaration) :
    R.vocabulary.Sums R.tokens [t] t.annotations.spec t.annotations.typedef := by
  cases t with
  | leaf j place => exact ⟨rfl, rfl, by simp [Tree.annotations, Tree.IsTypedef, Tree.children]⟩
  | node i span annotations children =>
    obtain ⟨p, hp, hchildren, ha, _⟩ := h.node_inv
    have hshaped := shaped_children hV hp hchildren
    obtain ⟨htypedef, hspec⟩ := marks_of_annotate hs (fun hc => hd (congrArg some hc)) hshaped.namedType ha
    rw [Tree.annotations, htypedef, hspec]
    constructor
    case types_eq =>
      rw [List.countP_singleton]
      simp [Vocabulary.isTypeSpecifier, Tree.category?, Part.category?, Tree.part]
    case named_eq => simp [Vocabulary.isTypeName]
    case typedef_iff => simp [isTypedef_iff hV hp hchildren]

lemma Forms.sums (hV : R.vocabulary.Declarative) (h : R.Forms x t) (hs : R.vocabulary.isSpecifiers t) :
    R.vocabulary.Sums R.tokens (R.vocabulary.specifiers t) t.annotations.spec t.annotations.typedef := by
  induction t using Tree.induction generalizing x with
  | leaf => cases hs
  | node i span annotations children ih =>
    obtain ⟨p, hp, hchildren, ha, _⟩ := h.node_inv
    have hshaped := shaped_children hV hp hchildren
    have hcategory : (R.vocabulary.category i).isSpecifiers = true := hs
    obtain ⟨hname, hstorage, hnamed⟩ := hshaped.role_of_isSpecifiers hcategory
    obtain ⟨hspec, htypedef⟩ := specifiers_of_annotate hname hstorage hnamed hcategory ha
    rw [Tree.annotations, hspec, htypedef, Vocabulary.specifiers]
    refine Vocabulary.sums_children fun c hc => ?_
    obtain ⟨y, hy⟩ := forms_children hchildren c hc
    -- The list goes on in a child that is one, and any other child is one specifier.
    split
    · rename_i hlist
      exact ih c hc hy hlist
    · rename_i hlist
      refine hy.sums_self hV (eq_false_of_ne_true hlist) fun hsort => ?_
      exact hshaped.listed hcategory (hsort ▸ List.mem_map_of_mem hc)

end Formed

end Reader

structure Vocabulary.Annotated (V : Vocabulary) (tokens : Array Token) (t : Tree) : Prop where
  declarator : V.isDeclarator t → ∃ nodes d, (∀ nodes' d', V.Wraps tokens t nodes' d' ↔ nodes' = nodes ∧ d' = d) ∧
    t.annotations.declares = [d] ∧
    Option.Rel (List.Forall₂ (V.Names tokens)) (nodes.findSome? V.suffix?) t.annotations.params
  list : t.category? V = some .initDeclaratorList ∨ t.category? V = some .parameterTypeList →
    List.Forall₂ (V.Names tokens) (V.declarators t) t.annotations.declares ∧
    ∃ numbers : List ℕ, t.annotations.declares.map Declared.token = numbers.map some ∧ numbers.Pairwise (· < ·)
  declaration : t.category? V = some .declaration → (t.annotations.typedef = true ↔
    ∃ l ∈ t.children, V.isSpecifiers l ∧ ∃ c ∈ V.specifiers l, c.IsTypedef tokens)
  /-- The name of a type is the only type specifier of its list. -/
  specifiers : V.isSpecifiers t → (∃ c ∈ V.specifiers t, V.isTypeName c) →
    (V.specifiers t).countP V.isTypeSpecifier = 1

namespace Reader

variable {R : Reader} {x : Symbol} {t : Tree}

lemma Forms.declarator (hV : R.vocabulary.Declarative) (h : R.Forms x t) (hd : R.vocabulary.isDeclarator t) :
    ∃ nodes d, (∀ nodes' d', R.vocabulary.Wraps R.tokens t nodes' d' ↔ nodes' = nodes ∧ d' = d) ∧
      t.annotations.declares = [d] ∧ Option.Rel (List.Forall₂ (R.vocabulary.Names R.tokens))
        (nodes.findSome? R.vocabulary.suffix?) t.annotations.params := by
  have hnot : ∀ category : Category, category.isDeclarator = false → t.category? R.vocabulary ≠ some category := by
    intro category hcategory hsort
    rw [Vocabulary.isDeclarator, hsort, Option.any_some, hcategory] at hd
    cases hd
  have hnames := h.names hV (hnot _ rfl) (hnot _ rfl)
  rw [Vocabulary.declarators_self hd] at hnames
  obtain ⟨d, ds, ⟨nodes, hwraps⟩, hnil, hdeclares⟩ := List.forall₂_cons_left_iff.mp hnames
  obtain rfl := List.forall₂_nil_left_iff.mp hnil
  refine ⟨nodes, d, fun nodes' d' => ⟨fun hwraps' => wraps_unique hV h hd hwraps hwraps', ?_⟩, hdeclares,
    h.params hV hd hwraps⟩
  rintro ⟨rfl, rfl⟩
  exact hwraps

lemma Forms.list (hV : R.vocabulary.Declarative) (h : R.Forms x t) (hleaves : t.leaves.Pairwise (· < ·))
    (hlist : t.category? R.vocabulary = some .initDeclaratorList ∨
      t.category? R.vocabulary = some .parameterTypeList) :
    List.Forall₂ (R.vocabulary.Names R.tokens) (R.vocabulary.declarators t) t.annotations.declares ∧
      ∃ numbers : List ℕ, t.annotations.declares.map Declared.token = numbers.map some ∧
        numbers.Pairwise (· < ·) := by
  have hnames := h.names hV (by rcases hlist with hc | hc <;> simp [hc]) (by rcases hlist with hc | hc <;> simp [hc])
  obtain ⟨numbers, htokens, hsub⟩ := exists_numbers hnames
  exact ⟨hnames, numbers, htokens, hleaves.sublist (hsub.trans (declarators_sublist _ t))⟩

lemma Forms.declaration (hV : R.vocabulary.Declarative) (h : R.Forms x t)
    (hd : t.category? R.vocabulary = some .declaration) : t.annotations.typedef = true ↔
      ∃ l ∈ t.children, R.vocabulary.isSpecifiers l ∧ ∃ c ∈ R.vocabulary.specifiers l, c.IsTypedef R.tokens := by
  cases t with
  | leaf => cases hd
  | node i span annotations children =>
    obtain ⟨p, hp, hchildren, ha, _⟩ := h.node_inv
    have hshaped := shaped_children hV hp hchildren
    have hcategory : R.vocabulary.category i = .declaration := Option.some.inj hd
    have hname : R.vocabulary.role i ≠ .declaratorName := hshaped.role_ne_name (by rw [hcategory]; decide)
    obtain ⟨hs, hrest⟩ := hshaped.declaration hcategory
    rcases children with _ | ⟨l, others⟩
    · cases hs
    rw [hcategory, List.map_cons] at ha
    obtain ⟨y, hy⟩ := forms_children hchildren l List.mem_cons_self
    rw [Tree.annotations, typedef_of_annotate hname ha, part_annotations, (hy.sums hV hs).typedef_iff, Tree.children]
    constructor
    · exact fun htypedef => ⟨l, List.mem_cons_self, hs, htypedef⟩
    · rintro ⟨b, hb, hbs, htypedef⟩
      rcases List.mem_cons.mp hb with rfl | hb
      · exact htypedef
      · exact absurd hbs (hrest _ (List.mem_map_of_mem hb))

lemma consistent_of_agrees {i : ℕ} {annotations : Annotations} {children : List Tree}
    (hs : (R.vocabulary.category i).isSpecifiers) (h : R.checker.agrees {} i annotations children = true) :
    annotations.spec.isConsistent = true := by
  have hvocabulary : R.checker.vocabulary = R.vocabulary := rfl
  rw [Checker.agrees, hvocabulary] at h
  cases hc : R.vocabulary.category i <;> rw [hc] at hs h <;> first | exact h | exact absurd hs (by decide)

lemma Forms.specifiers (hV : R.vocabulary.Declarative) (h : R.Forms x t) (hs : R.vocabulary.isSpecifiers t)
    (hnamed : ∃ c ∈ R.vocabulary.specifiers t, R.vocabulary.isTypeName c) :
    (R.vocabulary.specifiers t).countP R.vocabulary.isTypeSpecifier = 1 := by
  have hsums := h.sums hV hs
  rw [← hsums.types_eq]
  have hany : t.annotations.spec.named = true := hsums.named_eq ▸ List.any_eq_true.mpr hnamed
  cases t with
  | leaf => cases hs
  | node i span annotations children =>
    obtain ⟨p, _, _, _, hagrees, _⟩ := h.node_inv
    have hconsistent : annotations.spec.isConsistent = true := consistent_of_agrees hs hagrees
    rw [Specifiers.isConsistent, show annotations.spec.named = true from hany] at hconsistent
    exact eq_of_beq hconsistent

lemma Forms.annotated (hV : R.vocabulary.Declarative) (h : R.Forms x t) (hleaves : t.leaves.Pairwise (· < ·)) :
    R.vocabulary.Annotated R.tokens t :=
  ⟨h.declarator hV, h.list hV hleaves, h.declaration hV, h.specifiers hV⟩

end Reader

namespace FrontEnd

/-- The annotations of declarations are exact in all trees of C, as in those of any table with productions of
these shapes. -/
theorem declarations_annotated : (∀ V, standard = some V → V.Declarative ∧ ∃ prefers g, V.Tight prefers g) ∧
    ∀ (E : FrontEnd) prefers g, E.vocabulary.Tight prefers g → E.vocabulary.Declarative → ∀ source F,
      E.forest source = .ok F → ∀ t ∈ F.trees, ∀ s ∈ t.subtrees, E.vocabulary.Annotated F.tokens s := by
  refine ⟨fun V hV => ?_, fun E prefers g htight hV source F hF t ht s hs => ?_⟩
  · obtain ⟨g, hg⟩ := standard_eq hV
    exact ⟨hg.declarative, preferShift, g, hg.tight⟩
  · obtain ⟨x, hx⟩ := forest_formed htight hF t ht s hs
    obtain ⟨first, count, hfits⟩ := (forest_exact htight hF t ht).2 s hs
    have hleaves : s.leaves.Pairwise (· < ·) := hfits.leaves_eq ▸ List.pairwise_lt_range'
    exact hx.annotated hV hleaves

def sizeofSource : List UInt8 := "typedef int T, f(int a, int b); T x[sizeof(T)];".toUTF8.data.toList

def sizeofFront : List Rules.Mark := [
  .token, .node "StorageClassSpecifier" 1, .token, .node "TypeSpecifier" 1, .node "DeclarationSpecifiers" 2,
  .token, .node "DirectDeclarator" 1, .token, .token, .node "DirectDeclarator" 1, .token,
  .token, .node "TypeSpecifier" 1, .token, .node "DirectDeclarator" 1, .node "ParameterDeclaration" 2,
  .token, .token, .node "TypeSpecifier" 1, .token, .node "DirectDeclarator" 1, .node "ParameterDeclaration" 2,
  .node "ParameterList" 3, .token, .node "DirectDeclarator" 4, .node "InitDeclaratorList" 3,
  .token, .node "Declaration" 3, .token, .node "TypedefName" 1, .token, .node "DirectDeclarator" 1,
  .token, .token, .token, .token]

def sizeofBack : List Rules.Mark :=
  [.token, .node "DirectDeclarator" 4, .token, .node "Declaration" 3, .node "TranslationUnit" 2]

def sizeofMarks (argument : List Rules.Mark) : List Rules.Mark := sizeofFront ++ argument ++ sizeofBack

def sizeofNotes : List (Category × (Annotations → Bool)) := [
  (.initDeclaratorList, fun a => a.declares.map Declared.name = ["T", "f"]),
  (.directDeclarator, fun a => a.params.map (List.map Declared.name) = some ["a", "b"]),
  (.declaration, fun a => a.typedef),
  (.declarationSpecifiers, fun a => a.spec = ⟨1, true⟩)]

lemma sizeof_previews : (tokenize sizeofSource).toOption.any (fun tokens =>
    Rules.previews tokens.toArray true (sizeofMarks [.node "TypedefName" 1, .token, .node "UnaryExpression" 4])
      [(80, Rules.accepting fun t => sizeofNotes.all fun (category, noted) =>
        t.subtrees.any fun s => decide (s.category? Rules.outline = some category) && noted s.annotations)]) = true := by
  decide +kernel

theorem declarations_annotated_sizeof : ∃ V L F t, standard = some V ∧ V.Declarative ∧
    (FrontEnd.mk V { limits := L }).forest sizeofSource = .ok F ∧ t ∈ F.trees ∧
    (∀ s ∈ t.subtrees, V.Annotated F.tokens s) ∧
    ∀ e ∈ sizeofNotes, ∃ s ∈ t.subtrees, s.category? V = some e.1 ∧ e.2 s.annotations = true := by
  obtain ⟨V, _, hV, _⟩ := exists_vocabulary
  obtain ⟨g, hg⟩ := standard_eq hV
  obtain ⟨tokens, htokens, hshown⟩ := (Option.any_eq_true _ _).mp sizeof_previews
  have ht := toOption_eq_some htokens
  obtain ⟨t, hnotes, L, hL⟩ := exists_parseTokens_of_previews (E := FrontEnd.mk V {}) hg hshown List.mem_cons_self
    (tokenize_size ht)
  obtain ⟨trees, stats, hfound, hmem⟩ := hL L le_rfl le_rfl
  have hF : (FrontEnd.mk V { limits := L }).forest sizeofSource = .ok ⟨tokens.toArray, trees, stats⟩ := by
    rw [forest, ht]
    dsimp only
    rw [show (FrontEnd.mk V { limits := L }).parseTokens tokens.toArray = _ from hfound]
    rfl
  obtain ⟨hdeclarative, prefers, g', htight⟩ := declarations_annotated.1 V hV
  refine ⟨V, L, _, t, hV, hdeclarative, hF, hmem, ?_, fun e he => ?_⟩
  · exact declarations_annotated.2 (FrontEnd.mk V { limits := L }) prefers g' htight hdeclarative _ _ hF t hmem
  · obtain ⟨s, hs, hnoted⟩ := List.any_eq_true.mp (List.all_eq_true.mp hnotes e he)
    obtain ⟨hcategory, hnoted⟩ := Bool.and_eq_true_iff.mp hnoted
    refine ⟨s, hs, ?_, hnoted⟩
    rw [← of_decide_eq_true hcategory]
    exact (hg.part_category?_outline _).symm

end FrontEnd

end Ramify.C
