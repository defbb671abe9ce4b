import Ramify.Proofs.C.ContextEffects
import Ramify.Proofs.C.Survivors

namespace Ramify.C

namespace Checker

variable (K : Checker)

def usesAt (kind : NameKind) : Tree → List String
  | .node p _ _ (leaf :: _) => if (K.vocabulary.role p).use? = some kind then [(K.leafName leaf).name] else []
  | _ => []

def typedefsAt : Tree → List String
  | .leaf _ _ => []
  | .node p _ annotations _ =>
    if K.vocabulary.category p = .declaration ∧ annotations.typedef = true then
      annotations.declares.map Declared.name
    else []

mutual

/-- The names that a part of a declaration or of a parameter list has declared and the
provisional scopes do not know as such before the whole is read. -/
def waiting (kind : NameKind) : Tree → List String
  | .leaf _ _ => []
  | .node p _ annotations children =>
    match K.vocabulary.category p with
    | .initDeclaratorList | .parameterTypeList | .parameterList => waitingAll kind children
    | .initDeclarator =>
      if kind = .ordinary ∧ 1 < children.length then [] else annotations.declares.map Declared.name
    | .declaratorInit => if kind = .ordinary then [] else annotations.declares.map Declared.name
    | .parameterDeclaration => annotations.declares.map Declared.name
    | _ => []

def waitingAll (kind : NameKind) : List Tree → List String
  | [] => []
  | t :: rest => waiting kind t ++ waitingAll kind rest

end

/-- A name is not used as one of a kind while it waits, and no parameter list makes it an ordinary one
behind the back of a type. -/
structure Timely (kind : NameKind) (name : String) (t : Tree) : Prop where
  waits : ∀ s ∈ t.subtrees, s.children.Pairwise fun c d => name ∈ K.waiting kind c → name ∉ d.names (K.usesAt kind)
  parameters : kind = .typedef → ∀ s ∈ t.subtrees, K.isParameterList s → name ∉ s.names K.bindsAt

def knowsName (kind : NameKind) (name : String) : Query := fun ctx p _ children =>
  (K.vocabulary.role p).use? != some kind || children.head?.any fun t =>
    (K.leafName t).name != name || (ctx.scopes.refusal? kind name).isNone

variable {K} {kind : NameKind} {name : String} {p : Nat} {span : Span} {annotations : Annotations}
  {children ts : List Tree} {ctx : Context} {t : Tree}

lemma mem_waitingAll : name ∈ K.waitingAll kind ts ↔ ∃ c ∈ ts, name ∈ K.waiting kind c := by
  induction ts with
  | nil => simp [waitingAll]
  | cons t ts ih => simp [waitingAll, ih]

lemma Timely.child (h : K.Timely kind name (.node p span annotations children)) {c : Tree} (hc : c ∈ children) :
    K.Timely kind name c := by
  have hmem : ∀ s ∈ c.subtrees, s ∈ (Tree.node p span annotations children).subtrees :=
    fun s hs => List.mem_cons_of_mem _ (Tree.mem_forestSubtrees.mpr ⟨c, hc, hs⟩)
  exact ⟨fun s hs => h.waits s (hmem s hs), fun hkind s hs => h.parameters hkind s (hmem s hs)⟩

lemma Timely.pairwise (h : K.Timely kind name (.node p span annotations children)) :
    children.Pairwise fun c d => name ∈ K.waiting kind c → name ∉ d.names (K.usesAt kind) :=
  h.waits _ (Tree.mem_subtrees_self _)

section Everywhere

variable {f : Query} {ι : Type} {fs : ι → Query}

mutual

lemma everywhere_forall (h : ∀ ctx p a ts, f ctx p a ts = true ↔ ∀ i, fs i ctx p a ts = true) (ctx : Context) :
    ∀ t, K.everywhere f ctx t = true ↔ ∀ i, K.everywhere (fs i) ctx t = true
  | .leaf _ _ => ⟨fun _ _ => rfl, fun _ => rfl⟩
  | .node p _ annotations children => by
    simp only [everywhere, Bool.and_eq_true, everywhereAll_forall h ctx children, h, forall_and]

lemma everywhereAll_forall (h : ∀ ctx p a ts, f ctx p a ts = true ↔ ∀ i, fs i ctx p a ts = true) (ctx : Context) :
    ∀ ts, K.everywhereAll f ctx ts = true ↔ ∀ i, K.everywhereAll (fs i) ctx ts = true
  | [] => ⟨fun _ _ => rfl, fun _ => rfl⟩
  | t :: rest => by
    simp only [everywhereAll, Bool.and_eq_true, everywhere_forall h ctx t, everywhereAll_forall h _ rest, forall_and]

end

end Everywhere

variable (K) in
lemma knows_iff (kind : NameKind) (ctx : Context) (p : Nat) (annotations : Annotations) (children : List Tree) :
    K.knows kind ctx p annotations children = true ↔
      ∀ name, K.knowsName kind name ctx p annotations children = true := by
  cases children with
  | nil => exact ⟨fun h _ => h, fun h => h ""⟩
  | cons t rest =>
    simp only [knows, knowsName, List.head?_cons, Option.any_some, Bool.or_eq_true, bne_iff_ne]
    constructor
    · rintro (h | h) name
      · exact Or.inl h
      · by_cases hname : (K.leafName t).name = name
        · exact Or.inr (Or.inr (hname ▸ h))
        · exact Or.inr (Or.inl hname)
    · intro h
      rcases h (K.leafName t).name with h | h | h
      · exact Or.inl h
      · exact absurd rfl h
      · exact Or.inr h

lemma everywhere_knows_iff : K.everywhere (K.knows kind) ctx t = true ↔
    ∀ name, K.everywhere (K.knowsName kind name) ctx t = true :=
  everywhere_forall (K.knows_iff kind) ctx t

lemma knowsName_of_notMem (hne : children ≠ []) (h : name ∉ K.usesAt kind (.node p span annotations children))
    (ctx : Context) : K.knowsName kind name ctx p annotations children = true := by
  obtain ⟨leaf, rest, rfl⟩ := List.exists_cons_of_ne_nil hne
  rw [knowsName, Bool.or_eq_true, bne_iff_ne, List.head?_cons, Option.any_some, Bool.or_eq_true, bne_iff_ne]
  by_cases huse : (K.vocabulary.role p).use? = some kind
  · rw [usesAt, if_pos huse, List.mem_singleton] at h
    exact Or.inr (Or.inl fun hname => h hname.symm)
  · exact Or.inl huse

lemma expect_ok {s : Scopes} {leaf : Tree} {rest : List Tree} (h : K.expect p s kind (leaf :: rest) = .ok ()) :
    s.kind? (K.leafName leaf).name = some kind := by
  rw [expect] at h
  rw [Scopes.kind?]
  cases hl : s.lookup (K.leafName leaf).name with
  | none =>
    rw [hl] at h
    cases h
  | some b =>
    rw [hl] at h
    dsimp only at h
    split at h
    · rename_i hb
      exact congrArg some hb
    · cases h

end Checker

namespace Reader

open Rules

variable {R : Reader} {kind : NameKind} {name : String} {x : NamedSymbol} {xs : List NamedSymbol} {t : Tree}
  {ts : List Tree}

lemma everywhereAll_of_forall₂ {f : Checker.Query}
    (h : List.Forall₂ (fun _ t => ∀ ctx, R.checker.everywhere f ctx t = true) xs ts) (ctx : Context) :
    R.checker.everywhereAll f ctx ts = true := by
  induction h generalizing ctx with
  | nil => rfl
  | cons ht _ ih => rw [Checker.everywhereAll, ht ctx, ih, Bool.and_self]

lemma children_ne_nil {i : Nat} {r : Rule} (hr : rules[i]? = some r) {S : NamedSymbol → Tree → Prop}
    (h : List.Forall₂ S r.right ts) : ts ≠ [] := by
  rintro rfl
  exact (sides r (List.mem_of_getElem? hr)).2.2.2 (List.forall₂_nil_right_iff.mp h)

lemma exists_of_forall₂ {S : NamedSymbol → Tree → Prop} (h : List.Forall₂ S xs ts) : ∀ t ∈ ts, ∃ x ∈ xs, S x t := by
  induction h with
  | nil => exact List.forall_mem_nil _
  | cons ht _ ih =>
    refine List.forall_mem_cons.mpr ⟨⟨_, List.mem_cons_self, ht⟩, fun t hmem => ?_⟩
    obtain ⟨x, hx, ht⟩ := ih t hmem
    exact ⟨x, List.mem_cons_of_mem _ hx, ht⟩

lemma Spells.everywhere_of_notMem (h : R.Spells x t) (hname : name ∉ t.names (R.checker.usesAt kind)) (ctx : Context) :
    R.checker.everywhere (R.checker.knowsName kind name) ctx t = true := by
  revert hname ctx
  refine h.induction (fun _ _ _ _ _ _ => rfl) fun i r span annotations children hr hchildren _ hname ctx => ?_
  rw [Tree.mem_names_node, not_or] at hname
  obtain ⟨hhere, hbelow⟩ := hname
  have hmem := ((List.forall₂_and_left _ _).mpr ⟨fun _ => id, hchildren.flip⟩).flip
  rw [Checker.everywhere, Checker.knowsName_of_notMem (children_ne_nil hr hchildren) hhere, Bool.and_true]
  exact everywhereAll_of_forall₂ (hmem.imp fun {_ c} hc => hc.2.2 fun hname => hbelow ⟨c, hc.1, hname⟩) ctx

lemma Spells.everywhereAll_of_notMem (h : List.Forall₂ R.Spells xs ts)
    (hname : ∀ t ∈ ts, name ∉ t.names (R.checker.usesAt kind)) (ctx : Context) :
    R.checker.everywhereAll (R.checker.knowsName kind name) ctx ts = true := by
  induction h generalizing ctx with
  | nil => rfl
  | cons ht _ ih =>
    rw [List.forall_mem_cons] at hname
    rw [Checker.everywhereAll, ht.everywhere_of_notMem hname.1, ih hname.2, Bool.and_self]

end Reader

end Ramify.C
