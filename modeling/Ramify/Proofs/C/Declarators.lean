import Ramify.Proofs.C.FormedTrees
import Ramify.Proofs.C.Renaming

namespace Ramify.C

namespace Vocabulary

variable (V : Vocabulary) (tokens : Array Token)

def isDeclarator (t : Tree) : Bool := (t.category? V).any Category.isDeclarator

/-- The way from the name of a declarator outwards to the declarator itself. -/
inductive Wraps : Tree → List Tree → Declared → Prop
  | name {p i : ℕ} {span place : Span} {annotations : Annotations} {token : Token} : V.role p = .declaratorName →
      tokens[i]? = some token → token.kind = .identifier →
      Wraps (.node p span annotations [.leaf i place]) [.node p span annotations [.leaf i place]]
        ⟨token.text, some i, token.span⟩
  | inside {p : ℕ} {span : Span} {annotations : Annotations} {children nodes : List Tree} {c : Tree} {d : Declared} :
      c ∈ children → V.isDeclarator c → Wraps c nodes d →
      Wraps (.node p span annotations children) (nodes ++ [.node p span annotations children]) d

def Names (t : Tree) (d : Declared) : Prop := ∃ nodes, V.Wraps tokens t nodes d

mutual

def declarators : Tree → List Tree
  | .leaf _ _ => []
  | .node p span annotations children =>
    if (V.category p).isDeclarator then [.node p span annotations children]
    else if (V.category p).gathers then declaratorsOf children
    else []

def declaratorsOf : List Tree → List Tree
  | [] => []
  | t :: ts => declarators t ++ declaratorsOf ts

end

/-- The declarators in the parameter list of a function suffix. -/
def suffix? : Tree → Option (List Tree)
  | .leaf _ _ => none
  | .node p _ _ children =>
    match V.role p with
    | .functionDeclarator =>
      some (V.declaratorsOf (children.filter fun c => c.category? V == some .parameterTypeList))
    | .functionDeclaratorEmpty => some []
    | _ => none

end Vocabulary

section Lists

variable {α β γ : Type}

lemma flatMap_filter_eq {p q : α → Bool} {f : α → List β} {l : List α} (hq : ∀ a ∈ l, q a = true → p a = true)
    (hf : ∀ a ∈ l, p a = true → q a = false → f a = []) : (l.filter p).flatMap f = (l.filter q).flatMap f := by
  induction l with
  | nil => rfl
  | cons a l ih =>
    have ih := ih (fun b hb => hq b (List.mem_cons_of_mem a hb)) fun b hb => hf b (List.mem_cons_of_mem a hb)
    have hqa := hq a List.mem_cons_self
    have hfa := hf a List.mem_cons_self
    cases hpa : p a <;> cases hqa' : q a <;> simp_all

lemma forall₂_flatMap {S : β → γ → Prop} {f : α → List β} {g : α → List γ} {l : List α}
    (h : ∀ a ∈ l, List.Forall₂ S (f a) (g a)) : List.Forall₂ S (l.flatMap f) (l.flatMap g) := by
  induction l with
  | nil => exact .nil
  | cons a l ih =>
    rw [List.flatMap_cons, List.flatMap_cons]
    exact List.rel_append (h a List.mem_cons_self) (ih fun b hb => h b (List.mem_cons_of_mem a hb))

end Lists

namespace Vocabulary

variable {V : Vocabulary} {tokens : Array Token} {t c : Tree} {nodes : List Tree} {d : Declared}

lemma declaratorsOf_eq (ts : List Tree) : V.declaratorsOf ts = ts.flatMap V.declarators := by
  induction ts with
  | nil => rfl
  | cons t ts ih => rw [declaratorsOf, ih, List.flatMap_cons]

lemma declarators_self (h : V.isDeclarator t) : V.declarators t = [t] := by
  cases t with
  | leaf => cases h
  | node p span annotations children =>
    have hcategory : (V.category p).isDeclarator = true := h
    rw [declarators, if_pos hcategory]

lemma declarators_nil (h : V.isDeclarator t = false) (hc : (t.category? V).any Category.gathers = false) :
    V.declarators t = [] := by
  cases t with
  | leaf => rfl
  | node p span annotations children =>
    have hcategory : ¬ (V.category p).isDeclarator = true := ne_true_of_eq_false h
    have hgathers : ¬ (V.category p).gathers = true := ne_true_of_eq_false hc
    rw [declarators, if_neg hcategory, if_neg hgathers]

end Vocabulary

namespace Reader

variable {R : Reader} {role : Role} {category : Category} {annotations : Annotations}

section Annotate

variable {parts : List Part}

lemma roleAnnotations_eq (h : role ≠ .declaratorName) : R.roleAnnotations role parts =
    .ok { typedef := role == .typedefStorage, spec := if role = .namedType then ⟨1, true⟩ else {} } := by
  cases role <;> first | rfl | exact absurd rfl h

lemma annotate_eq (h : role ≠ .declaratorName) : R.annotate role category parts =
    R.categoryAnnotations role category parts
      { typedef := role == .typedefStorage, spec := if role = .namedType then ⟨1, true⟩ else {} } := by
  rw [annotate, roleAnnotations_eq h]
  rfl

lemma declares_of_annotate (hrole : role ≠ .declaratorName) (hc : category.isDeclarator ∨ category.gathers)
    (h : R.annotate role category parts = .ok annotations) : annotations.declares = R.declaredBy parts := by
  rw [annotate_eq hrole] at h
  cases category <;> simp only [Category.isDeclarator, Category.gathers, Bool.false_eq_true, or_self] at hc
  all_goals
    cases h
    rfl

lemma declares_nil_of_annotate (hrole : role ≠ .declaratorName) (hd : category.isDeclarator = false)
    (hg : category.gathers = false) (hdeclaration : category ≠ .declaration) (henumerator : category ≠ .enumerator)
    (h : R.annotate role category parts = .ok annotations) : annotations.declares = [] := by
  rw [annotate_eq hrole] at h
  cases category
  case declaration => exact absurd rfl hdeclaration
  case enumerator => exact absurd rfl henumerator
  case typeSpecifier =>
    obtain rfl := Except.ok.inj h
    split <;> rfl
  all_goals
    first
    | exact absurd hd (by decide)
    | exact absurd hg (by decide)
    | exact (Except.ok.inj h) ▸ rfl

lemma params_of_annotate (hrole : role ≠ .declaratorName) (hd : category.isDeclarator)
    (h : R.annotate role category parts = .ok annotations) : annotations.params = R.paramsOf role parts := by
  rw [annotate_eq hrole] at h
  cases category <;> cases hd <;> (cases h; rfl)

lemma annotate_name {i : ℕ} {place : Span} : R.annotate .declaratorName .directDeclarator [(Tree.leaf i place).part] =
    .ok { declares := [R.identifier (Tree.leaf i place).part] } := rfl

end Annotate

variable {children : List Tree}

lemma isDeclarator_part (t : Tree) : R.isDeclarator t.part = R.vocabulary.isDeclarator t := by
  rw [isDeclarator, Vocabulary.isDeclarator, Tree.category?]
  cases t.part.category? R.vocabulary with
  | none => rfl
  | some category => cases category <;> rfl

lemma declaredBy_eq (children : List Tree) : R.declaredBy (children.map Tree.part) =
    (children.filter fun c => c.category? R.vocabulary != some .parameterTypeList).flatMap
      fun c => c.annotations.declares := by
  simp only [declaredBy, List.filter_map, List.flatMap_map, part_annotations]
  rfl

def ownParams (R : Reader) (role : Role) (children : List Tree) : Option (List Declared) :=
  match role with
  | .functionDeclarator =>
    (children.find? fun c => c.category? R.vocabulary == some .parameterTypeList).map fun c => c.annotations.declares
  | .functionDeclaratorEmpty => some []
  | _ => none

lemma paramsOf_eq {c : Tree} (h : children.filter R.vocabulary.isDeclarator = [c]) :
    R.paramsOf role (children.map Tree.part) = c.annotations.params.or (R.ownParams role children) := by
  have hinside : ((children.map Tree.part).filter R.isDeclarator).findSome? (fun part => part.annotations.params) =
      c.annotations.params := by
    rw [List.filter_map]
    have hsame : R.isDeclarator ∘ Tree.part = R.vocabulary.isDeclarator := funext isDeclarator_part
    rw [hsame, h, List.map_singleton, List.findSome?_singleton, part_annotations]
  unfold paramsOf
  dsimp only
  rw [hinside]
  cases c.annotations.params with
  | some params => rfl
  | none =>
    cases role
    case functionDeclarator =>
      have hdeclares : (fun part : Part => part.annotations.declares) ∘ Tree.part = fun t => t.annotations.declares :=
        funext fun t => congrArg Annotations.declares (part_annotations t)
      simp only [List.find?_map, Option.map_map, Option.none_or, ownParams, hdeclares]
      rfl
    all_goals rfl

section Formed

variable {x : Symbol} {t : Tree} {i : ℕ} {p : Production} {span : Span}

lemma shaped_children (hV : R.vocabulary.Declarative) (hp : R.vocabulary.table.productions[i]? = some p)
    (hchildren : List.Forall₂ R.Forms p.rhs children) :
    Shaped (R.vocabulary.role i) (R.vocabulary.category i) (children.map (Tree.category? R.vocabulary)) :=
  forms_categories hchildren ▸ hV.shaped i p hp

lemma filter_isDeclarator (h : Shaped role category (children.map (Tree.category? R.vocabulary)))
    (hd : category.isDeclarator) (hrole : role ≠ .declaratorName) :
    ∃ c, children.filter R.vocabulary.isDeclarator = [c] := by
  have hone := h.inner hd hrole
  rw [List.countP_map, List.countP_eq_length_filter] at hone
  exact List.length_eq_one_iff.mp hone

lemma filter_of_mem {c : Tree} (h : Shaped role category (children.map (Tree.category? R.vocabulary)))
    (hd : category.isDeclarator) (hc : c ∈ children) (hcd : R.vocabulary.isDeclarator c) :
    role ≠ .declaratorName ∧ children.filter R.vocabulary.isDeclarator = [c] := by
  have hrole : role ≠ .declaratorName := by
    intro hrole
    have hsort := List.mem_map_of_mem (f := Tree.category? R.vocabulary) hc
    rw [(h.name hrole).2, List.mem_singleton] at hsort
    rw [Vocabulary.isDeclarator, hsort] at hcd
    cases hcd
  obtain ⟨b, hfilter⟩ := filter_isDeclarator h hd hrole
  have hmem : c ∈ children.filter R.vocabulary.isDeclarator := List.mem_filter.mpr ⟨hc, hcd⟩
  rw [hfilter, List.mem_singleton] at hmem
  exact ⟨hrole, hmem ▸ hfilter⟩

lemma mem_of_filter_eq {p : Tree → Bool} {c : Tree} (h : children.filter p = [c]) : c ∈ children ∧ p c = true :=
  List.mem_filter.mp (h ▸ List.mem_singleton_self c)

lemma exists_leaf_of_sorts {V : Vocabulary} (h : children.map (Tree.category? V) = [none]) :
    ∃ j place, children = [.leaf j place] := by
  obtain ⟨c, rfl, hc⟩ := List.map_eq_singleton_iff.mp h
  cases c with
  | node => cases hc
  | leaf j place => exact ⟨j, place, rfl⟩

lemma forms_leaf {xs : List Symbol} {j : ℕ} {place : Span} (h : List.Forall₂ R.Forms xs [.leaf j place]) :
    ∃ token t, R.tokens[j]? = some token ∧ R.vocabulary.terminal? token.kind = some t ∧ xs = [.term t] ∧
      place = token.span := by
  obtain ⟨y, ys, hy, hys, rfl⟩ := List.forall₂_cons_right_iff.mp h
  obtain rfl := List.forall₂_nil_right_iff.mp hys
  obtain ⟨token, t, htoken, ht, rfl, hspan⟩ := hy.leaf_inv
  exact ⟨token, t, htoken, ht, rfl, hspan⟩

lemma names_identifier (span : Span) (hV : R.vocabulary.Declarative)
    (hp : R.vocabulary.table.productions[i]? = some p)
    (hchildren : List.Forall₂ R.Forms p.rhs children) (hrole : R.vocabulary.role i = .declaratorName)
    (ha : R.annotate (R.vocabulary.role i) (R.vocabulary.category i) (children.map Tree.part) = .ok annotations) :
    annotations.params = none ∧ ∃ d, annotations.declares = [d] ∧
      R.vocabulary.Wraps R.tokens (.node i span annotations children) [.node i span annotations children] d := by
  obtain ⟨hcategory, hsorts⟩ := (shaped_children hV hp hchildren).name hrole
  obtain ⟨j, place, rfl⟩ := exists_leaf_of_sorts hsorts
  obtain ⟨token, t, htoken, ht, hrhs, hspan⟩ := forms_leaf hchildren
  rw [hrole, hcategory, List.map_singleton, annotate_name] at ha
  obtain rfl := Except.ok.inj ha
  have hname : R.identifier (Tree.leaf j place).part = ⟨token.text, some j, place⟩ := by
    simp [identifier, Tree.part, htoken]
  refine ⟨rfl, _, rfl, ?_⟩
  rw [hname, hspan]
  exact .name hrole htoken (hV.name_kind i p t token.kind hp hrhs ht hrole)

lemma declaredBy_beside {c : Tree} (h : Shaped role category (children.map (Tree.category? R.vocabulary)))
    (hd : category.isDeclarator) (hnames : ∀ c ∈ children,
      List.Forall₂ (R.vocabulary.Names R.tokens) (R.vocabulary.declarators c) c.annotations.declares)
    (hfilter : children.filter R.vocabulary.isDeclarator = [c]) :
    R.declaredBy (children.map Tree.part) = c.annotations.declares := by
  rw [declaredBy_eq, flatMap_filter_eq (q := R.vocabulary.isDeclarator), hfilter, List.flatMap_singleton]
  · intro b _ hb
    rw [bne_iff_ne]
    intro hsort
    rw [Vocabulary.isDeclarator, hsort] at hb
    cases hb
  · intro b hb hlist hnot
    have hgathers : (b.category? R.vocabulary).any Category.gathers = false := by
      by_contra hg
      exact bne_iff_ne.mp hlist (h.own hd _ (List.mem_map_of_mem hb) (eq_true_of_ne_false hg))
    have hnil := hnames b hb
    rw [Vocabulary.declarators_nil hnot hgathers] at hnil
    exact List.forall₂_nil_left_iff.mp hnil

lemma names_declarator (span : Span) (hV : R.vocabulary.Declarative)
    (hp : R.vocabulary.table.productions[i]? = some p) (hchildren : List.Forall₂ R.Forms p.rhs children)
    (hd : (R.vocabulary.category i).isDeclarator)
    (ha : R.annotate (R.vocabulary.role i) (R.vocabulary.category i) (children.map Tree.part) = .ok annotations)
    (hnames : ∀ c ∈ children,
      List.Forall₂ (R.vocabulary.Names R.tokens) (R.vocabulary.declarators c) c.annotations.declares) :
    List.Forall₂ (R.vocabulary.Names R.tokens) [.node i span annotations children] annotations.declares := by
  have hshaped := shaped_children hV hp hchildren
  by_cases hrole : R.vocabulary.role i = .declaratorName
  · obtain ⟨_, d, hdeclares, hwraps⟩ := names_identifier span hV hp hchildren hrole ha
    exact hdeclares ▸ .cons ⟨_, hwraps⟩ .nil
  · obtain ⟨c, hfilter⟩ := filter_isDeclarator hshaped hd hrole
    obtain ⟨hc, hcd⟩ := mem_of_filter_eq hfilter
    have hinner := hnames c hc
    rw [Vocabulary.declarators_self hcd] at hinner
    obtain ⟨d, ds, ⟨nodes, hwraps⟩, hnil, hone⟩ := List.forall₂_cons_left_iff.mp hinner
    obtain rfl := List.forall₂_nil_left_iff.mp hnil
    have hdeclares := declares_of_annotate hrole (Or.inl hd) ha
    rw [declaredBy_beside hshaped hd hnames hfilter, hone] at hdeclares
    exact hdeclares ▸ .cons ⟨_, .inside hc hcd hwraps⟩ .nil

lemma Forms.names (hV : R.vocabulary.Declarative) (h : R.Forms x t)
    (hdeclaration : t.category? R.vocabulary ≠ some .declaration)
    (henumerator : t.category? R.vocabulary ≠ some .enumerator) :
    List.Forall₂ (R.vocabulary.Names R.tokens) (R.vocabulary.declarators t) t.annotations.declares := by
  induction t using Tree.induction generalizing x with
  | leaf => exact .nil
  | node i span annotations children ih =>
    obtain ⟨p, hp, hchildren, ha, _⟩ := h.node_inv
    have hshaped := shaped_children hV hp hchildren
    have hnames : (R.vocabulary.category i).isDeclarator ∨ (R.vocabulary.category i).gathers → ∀ c ∈ children,
        List.Forall₂ (R.vocabulary.Names R.tokens) (R.vocabulary.declarators c) c.annotations.declares := by
      intro hcategory c hc
      obtain ⟨hnot, hnot'⟩ := hshaped.outer hcategory
      obtain ⟨y, hy⟩ := forms_children hchildren c hc
      refine ih c hc hy (fun hsort => hnot ?_) fun hsort => hnot' ?_
      · exact hsort ▸ List.mem_map_of_mem hc
      · exact hsort ▸ List.mem_map_of_mem hc
    -- Besides declarators only lists declare names, and these gather the names of all their children.
    by_cases hd : (R.vocabulary.category i).isDeclarator = true
    · rw [R.vocabulary.declarators_self (t := .node i span annotations children) hd]
      exact names_declarator span hV hp hchildren hd ha (hnames (Or.inl hd))
    have hrole : R.vocabulary.role i ≠ .declaratorName := hshaped.role_ne_name fun hc => hd (by rw [hc]; rfl)
    by_cases hg : (R.vocabulary.category i).gathers = true
    · have hdeclares := declares_of_annotate hrole (Or.inr hg) ha
      rw [declaredBy_eq, List.filter_eq_self.mpr] at hdeclares
      · rw [Vocabulary.declarators, if_neg hd, if_pos hg, Vocabulary.declaratorsOf_eq, Tree.annotations, hdeclares]
        exact forall₂_flatMap (hnames (Or.inr hg))
      · intro c hc
        rw [bne_iff_ne]
        exact fun hsort => hshaped.gathered hg (hsort ▸ List.mem_map_of_mem hc)
    · have hnil := declares_nil_of_annotate hrole (eq_false_of_ne_true hd) (eq_false_of_ne_true hg)
        (fun hc => hdeclaration (congrArg some hc)) (fun hc => henumerator (congrArg some hc)) ha
      rw [Vocabulary.declarators, if_neg hd, if_neg hg, Tree.annotations, hnil]
      exact .nil

variable {nodes nodes' : List Tree} {d d' : Declared}

lemma not_isDeclarator_leaf {V : Vocabulary} {c : Tree} {j : ℕ} {place : Span} (hc : c ∈ [Tree.leaf j place]) :
    ¬ V.isDeclarator c = true := by
  obtain rfl := List.mem_singleton.mp hc
  exact Bool.false_ne_true

lemma wraps_unique (hV : R.vocabulary.Declarative) (h : R.Forms x t) (hd : R.vocabulary.isDeclarator t)
    (hwraps : R.vocabulary.Wraps R.tokens t nodes d) (hwraps' : R.vocabulary.Wraps R.tokens t nodes' d') :
    nodes' = nodes ∧ d' = d := by
  induction hwraps generalizing x nodes' d' with
  | name _ htoken _ =>
    cases hwraps' with
    | name _ htoken' _ =>
      obtain rfl := Option.some.inj (htoken.symm.trans htoken')
      exact ⟨rfl, rfl⟩
    | inside hc hcd => exact absurd hcd (not_isDeclarator_leaf hc)
  | inside hc hcd _ ih =>
    cases hwraps' with
    | name => exact absurd hcd (not_isDeclarator_leaf hc)
    | inside hc' hcd' hwraps' =>
      obtain ⟨p, hp, hchildren, _⟩ := h.node_inv
      have hshaped := shaped_children hV hp hchildren
      have hfilter := (filter_of_mem hshaped hd hc hcd).2
      obtain rfl := (List.cons.inj (hfilter.symm.trans (filter_of_mem hshaped hd hc' hcd').2)).1
      obtain ⟨y, hy⟩ := forms_children hchildren _ hc
      obtain ⟨rfl, rfl⟩ := ih hy hcd hwraps'
      exact ⟨rfl, rfl⟩

lemma suffix_ownParams (hV : R.vocabulary.Declarative) (hp : R.vocabulary.table.productions[i]? = some p)
    (hchildren : List.Forall₂ R.Forms p.rhs children) :
    Option.Rel (List.Forall₂ (R.vocabulary.Names R.tokens))
      (R.vocabulary.suffix? (.node i span annotations children)) (R.ownParams (R.vocabulary.role i) children) := by
  have hshaped := shaped_children hV hp hchildren
  rw [Vocabulary.suffix?]
  cases hrole : R.vocabulary.role i
  case functionDeclarator =>
    have hone := hshaped.suffix hrole
    rw [List.count_eq_length_filter, List.filter_map, List.length_map] at hone
    obtain ⟨c, hfilter⟩ := List.length_eq_one_iff.mp hone
    obtain ⟨hc, hsort⟩ := mem_of_filter_eq hfilter
    obtain ⟨y, hy⟩ := forms_children hchildren c hc
    have hlist : c.category? R.vocabulary = some .parameterTypeList := eq_of_beq hsort
    have hnames := hy.names hV (by simp [hlist]) (by simp [hlist])
    have hfind : children.find? (fun c => c.category? R.vocabulary == some .parameterTypeList) = some c := by
      rw [← List.head?_filter]
      exact congrArg List.head? hfilter
    rw [ownParams, hfind]
    have hdeclarators : (children.filter fun c => c.category? R.vocabulary == some .parameterTypeList).flatMap
        R.vocabulary.declarators = R.vocabulary.declarators c :=
      (congrArg (List.flatMap _) hfilter).trans (List.flatMap_singleton _ _)
    dsimp only
    rw [Vocabulary.declaratorsOf_eq, hdeclarators]
    exact .some hnames
  case functionDeclaratorEmpty => exact .some .nil
  all_goals exact .none

lemma Forms.params (hV : R.vocabulary.Declarative) (h : R.Forms x t) (hd : R.vocabulary.isDeclarator t)
    (hwraps : R.vocabulary.Wraps R.tokens t nodes d) :
    Option.Rel (List.Forall₂ (R.vocabulary.Names R.tokens)) (nodes.findSome? R.vocabulary.suffix?)
      t.annotations.params := by
  induction hwraps generalizing x with
  | name hrole _ _ =>
    obtain ⟨p, hp, hchildren, ha, _⟩ := h.node_inv
    rw [Tree.annotations, (names_identifier {} hV hp hchildren hrole ha).1, List.findSome?_singleton,
      Vocabulary.suffix?, hrole]
    exact .none
  | inside hc hcd _ ih =>
    obtain ⟨p, hp, hchildren, ha, _⟩ := h.node_inv
    obtain ⟨hrole, hfilter⟩ := filter_of_mem (shaped_children hV hp hchildren) hd hc hcd
    obtain ⟨y, hy⟩ := forms_children hchildren _ hc
    rw [List.findSome?_append, List.findSome?_singleton, Tree.annotations, params_of_annotate hrole hd ha,
      paramsOf_eq hfilter]
    exact rel_or (ih hy hcd) (suffix_ownParams hV hp hchildren)

lemma wraps_leaf {V : Vocabulary} {tokens : Array Token} (h : V.Wraps tokens t nodes d) :
    ∃ j ∈ t.leaves, d.token = some j := by
  induction h with
  | @name _ j => exact ⟨j, List.mem_singleton_self j, rfl⟩
  | inside hc _ _ ih =>
    obtain ⟨j, hj, htoken⟩ := ih
    exact ⟨j, Tree.leaves_subset hc hj, htoken⟩

lemma flatMap_sublist {f : Tree → List Tree} (h : ∀ c ∈ children, (Tree.forestLeaves (f c)).Sublist c.leaves) :
    (Tree.forestLeaves (children.flatMap f)).Sublist (Tree.forestLeaves children) := by
  induction children with
  | nil => exact List.nil_sublist _
  | cons c children ih =>
    rw [List.forall_mem_cons] at h
    rw [List.flatMap_cons, Tree.forestLeaves_append, Tree.forestLeaves]
    exact h.1.append (ih h.2)

lemma declarators_sublist (V : Vocabulary) (t : Tree) : (Tree.forestLeaves (V.declarators t)).Sublist t.leaves := by
  induction t using Tree.induction with
  | leaf i span => exact List.nil_sublist _
  | node i span annotations children ih =>
    rw [Vocabulary.declarators]
    split
    · rw [Tree.forestLeaves_singleton]
    · split
      · rw [Vocabulary.declaratorsOf_eq, Tree.leaves]
        exact flatMap_sublist ih
      · exact List.nil_sublist _

lemma exists_numbers {V : Vocabulary} {tokens : Array Token} {ts : List Tree} {ds : List Declared}
    (h : List.Forall₂ (V.Names tokens) ts ds) :
    ∃ numbers : List ℕ, ds.map Declared.token = numbers.map some ∧ numbers.Sublist (Tree.forestLeaves ts) := by
  induction h with
  | nil => exact ⟨[], rfl, List.nil_sublist _⟩
  | cons hd _ ih =>
    obtain ⟨nodes, hwraps⟩ := hd
    obtain ⟨j, hj, htoken⟩ := wraps_leaf hwraps
    obtain ⟨numbers, htokens, hsub⟩ := ih
    refine ⟨j :: numbers, by rw [List.map_cons, List.map_cons, htoken, htokens], ?_⟩
    exact (List.singleton_sublist.mpr hj).append hsub

end Formed

end Reader

end Ramify.C
