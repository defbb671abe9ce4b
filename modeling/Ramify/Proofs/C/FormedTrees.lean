import Ramify.Proofs.C.DeclarationShapes
import Ramify.Proofs.C.SpelledTrees
import Ramify.Proofs.C.TreeSpans

namespace Ramify.C

def Tree.category? (V : Vocabulary) (t : Tree) : Option Category := t.part.category? V

inductive Reader.Forms (R : Reader) : Symbol → Tree → Prop
  | leaf {i t : ℕ} {token : Token} : R.tokens[i]? = some token → R.vocabulary.terminal? token.kind = some t →
      Forms R (.term t) (.leaf i token.span)
  | node {i : ℕ} {p : Production} {span : Span} {annotations : Annotations} {children : List Tree} :
      R.vocabulary.table.productions[i]? = some p → List.Forall₂ (Forms R) p.rhs children →
      R.annotate (R.vocabulary.role i) (R.vocabulary.category i) (children.map Tree.part) = .ok annotations →
      R.checker.agrees {} i annotations children = true → R.vocabulary.Covers i →
      Forms R (.nonterm p.lhs) (.node i span annotations children)

namespace Reader

open Search

variable {R : Reader} {x : Symbol} {t : Tree} {i : ℕ} {span : Span} {annotations : Annotations} {children : List Tree}

lemma Forms.node_inv (h : R.Forms x (.node i span annotations children)) : ∃ p,
    R.vocabulary.table.productions[i]? = some p ∧ List.Forall₂ R.Forms p.rhs children ∧
      R.annotate (R.vocabulary.role i) (R.vocabulary.category i) (children.map Tree.part) = .ok annotations ∧
      R.checker.agrees {} i annotations children = true ∧ R.vocabulary.Covers i := by
  cases h with
  | node hp hchildren ha hagrees hcovers => exact ⟨_, hp, hchildren, ha, hagrees, hcovers⟩

lemma Forms.leaf_inv {j : ℕ} (h : R.Forms x (.leaf j span)) : ∃ token t, R.tokens[j]? = some token ∧
    R.vocabulary.terminal? token.kind = some t ∧ x = .term t ∧ span = token.span := by
  cases h with
  | leaf htoken ht => exact ⟨_, _, htoken, ht, rfl, rfl⟩

lemma forms_children {xs : List Symbol} (h : List.Forall₂ R.Forms xs children) :
    ∀ c ∈ children, ∃ x, R.Forms x c := by
  have hboth := h.flip.imp (S := fun c _ => (∃ x, R.Forms x c) ∧ True) fun c x hx => ⟨⟨x, hx⟩, trivial⟩
  exact ((List.forall₂_and_left _ _).mp hboth).1

lemma Forms.subtrees (h : R.Forms x t) : ∀ s ∈ t.subtrees, ∃ x, R.Forms x s := by
  induction t using Tree.induction generalizing x with
  | leaf i span =>
    intro s hs
    obtain rfl := List.mem_singleton.mp hs
    exact ⟨x, h⟩
  | node i span annotations children ih =>
    intro s hs
    rw [Tree.subtrees, List.mem_cons, Tree.mem_forestSubtrees] at hs
    rcases hs with rfl | ⟨c, hc, hs⟩
    · exact ⟨x, h⟩
    · obtain ⟨p, _, hchildren, _⟩ := h.node_inv
      obtain ⟨y, hy⟩ := forms_children hchildren c hc
      exact ih c hc hy s hs

lemma Forms.category_eq (h : R.Forms x t) : t.category? R.vocabulary = R.vocabulary.sort? x := by
  cases h with
  | leaf => rfl
  | @node i p _ _ _ hp =>
    have hcategory : R.vocabulary.category i = R.vocabulary.categories.getD p.lhs .other := by
      rw [Vocabulary.category, Vocabulary.category?, hp, Option.bind_some, Array.getD_eq_getD_getElem?]
    exact congrArg some hcategory

lemma forms_categories {xs : List Symbol} (h : List.Forall₂ R.Forms xs children) :
    xs.map R.vocabulary.sort? = children.map (Tree.category? R.vocabulary) := by
  induction h with
  | nil => rfl
  | cons hx _ ih => rw [List.map_cons, List.map_cons, hx.category_eq, ih]

lemma part_annotations (t : Tree) : t.part.annotations = t.annotations := by
  cases t <;> rfl

lemma types_foldl (spec : Specifiers) (parts : List Part) :
    (parts.foldl (fun s part => s.add part.annotations.spec) spec).types =
      spec.types + (parts.map fun part => part.annotations.spec.types).sum := by
  induction parts generalizing spec with
  | nil => rfl
  | cons part parts ih => rw [List.foldl_cons, ih, List.map_cons, List.sum_cons, Specifiers.add, Nat.add_assoc]

lemma types_of_annotate {role : Role} {category : Category} {parts : List Part}
    (h : R.annotate role category parts = .ok annotations) :
    annotations.spec.types ≤ 1 + (parts.map fun part => part.annotations.spec.types).sum := by
  obtain ⟨a, ha, h⟩ := Grammar.ok_of_bind h
  have hone : a.spec.types ≤ 1 := by
    cases role
    case declaratorName =>
      obtain ⟨d, -, hd⟩ := Grammar.ok_of_bind ha
      cases hd
      exact Nat.zero_le 1
    all_goals
      cases ha
      decide
  have hle : a.spec.types ≤ 1 + (parts.map fun part => part.annotations.spec.types).sum := Nat.le_add_right_of_le hone
  cases category
  case typeSpecifier =>
    obtain rfl := Except.ok.inj h
    split
    · exact hle
    · exact Nat.le_add_right _ _
  case declarationSpecifiers | specifierQualifierList =>
    obtain rfl := Except.ok.inj h
    dsimp only
    rw [types_foldl]
    exact Nat.add_le_add_right hone _
  case declaration =>
    cases parts with
    | nil => cases h
    | cons specifiers rest =>
      obtain rfl := Except.ok.inj h
      exact hle
  case enumerator =>
    obtain ⟨d, -, hd⟩ := Grammar.ok_of_bind h
    obtain rfl := Except.ok.inj hd
    exact hle
  all_goals
    obtain rfl := Except.ok.inj h
    exact hle

lemma Forms.types_le (h : R.Forms x t) : t.annotations.spec.types ≤ t.size := by
  induction t using Tree.induction generalizing x with
  | leaf => exact Nat.zero_le _
  | node i span annotations children ih =>
    obtain ⟨p, _, hchildren, ha, _⟩ := h.node_inv
    have hsum : ∀ ts : List Tree, (∀ c ∈ ts, c ∈ children) →
        ((ts.map Tree.part).map fun part => part.annotations.spec.types).sum ≤ Tree.sizes ts := by
      intro ts hts
      induction ts with
      | nil => exact Nat.zero_le _
      | cons c ts ihts =>
        rw [List.forall_mem_cons] at hts
        obtain ⟨y, hy⟩ := forms_children hchildren c hts.1
        have hc := ih c hts.1 hy
        rw [List.map_cons, List.map_cons, List.sum_cons, Tree.sizes, part_annotations]
        exact Nat.add_le_add hc (ihts hts.2)
    rw [Tree.annotations, Tree.size, Nat.add_comm]
    exact (types_of_annotate ha).trans (Nat.add_le_add_left (hsum children fun _ => id) 1)

lemma treeBuilder_keeps_forms {g : Grammar} (hproductions : R.vocabulary.table.productions = g.productions)
    (hnumbered : g.WellNumbered) : R.treeBuilder.Keeps R.tokens g.productions R.Forms := by
  constructor
  · intro s s' c c' token i t v hb htoken ht
    cases hb
    exact .leaf htoken ht
  · intro s s' c c' p index children v hb hp hchildren
    obtain ⟨annotations, ha, hmade, hasks⟩ := R.treeBuilder_ok_iff.mp hb
    obtain ⟨rfl, rfl⟩ := Prod.mk.inj hmade
    rw [asks, Bool.and_eq_true] at hasks
    have hcovers := R.covers_of_annotationsOf ha
    rw [R.annotationsOf_of_covers hcovers] at ha
    refine .node ?_ hchildren ha hasks.2 hcovers
    rw [hproductions, hnumbered.index_eq index p hp, hp]

end Reader

namespace FrontEnd

open Search

variable {E : FrontEnd} {prefers : List String} {g : Grammar} {source : List UInt8} {F : Forest}

lemma forest_formed (hV : E.vocabulary.Tight prefers g) (hF : E.forest source = .ok F) :
    ∀ t ∈ F.trees, ∀ s ∈ t.subtrees, ∃ x, (E.reader F.tokens).Forms x s := by
  obtain ⟨list, hlist, htokens, hp⟩ := forest_ok hF
  obtain ⟨es, hes, hfound⟩ := reads_of_parseTokens hp
  have hC : (E.treeParser F.tokens).Constructed prefers g := ⟨hV.table_eq, hV.numbered⟩
  have hkeeps : (E.treeParser F.tokens).builder.Keeps F.tokens g.productions (E.reader F.tokens).Forms :=
    Reader.treeBuilder_keeps_forms hC.productions_eq hV.numbered
  have hsize : 0 < F.tokens.size := by
    rw [htokens]
    exact (tokenize_laid hlist).pos
  have haccepted : ∀ t ∈ accepted es, ∃ x, (E.reader F.tokens).Forms x t := by
    refine hes.accepted_invariant
      (I := fun p => ∃ symbols, (E.treeParser F.tokens).Stands F.tokens g (E.reader F.tokens).Forms p symbols)
      (fun p q hp hm => Parser.Stands.movesTo hC hkeeps hp hm) ?_ ⟨[], Parser.stands_start hsize ()⟩
    rintro p token actions value values ⟨symbols, hstands⟩ hc ha hvalues
    obtain ⟨first, value', _, _, hone, hforms⟩ := hstands.accept hC hV.isolated hc ha
    rw [hone] at hvalues
    cases hvalues
    exact ⟨_, hforms⟩
  intro t ht
  obtain ⟨x, hx⟩ := haccepted t (hfound ▸ ht)
  exact hx.subtrees

/-- No tree of a forest counts more type specifiers than it has nodes, so that a count of 32 bits is
exact in all that have less than `2 ^ 32`. -/
theorem forest_types_le (hV : E.vocabulary.Tight prefers g) (hF : E.forest source = .ok F) {t s : Tree}
    (ht : t ∈ F.trees) (hs : s ∈ t.subtrees) : s.annotations.spec.types ≤ s.size := by
  obtain ⟨x, hx⟩ := forest_formed hV hF t ht s hs
  exact hx.types_le

/-- The productions in the trees of a forest have a role and a category, so that the check of scopes
looks up nothing in vain. -/
theorem forest_covers (hV : E.vocabulary.Tight prefers g) (hF : E.forest source = .ok F) {t : Tree} (ht : t ∈ F.trees)
    {i : ℕ} {span : Span} {annotations : Annotations} {children : List Tree}
    (hs : .node i span annotations children ∈ t.subtrees) : E.vocabulary.Covers i := by
  obtain ⟨x, hx⟩ := forest_formed hV hF t ht _ hs
  obtain ⟨_, _, _, _, _, hcovers⟩ := hx.node_inv
  exact hcovers

end FrontEnd

end Ramify.C
