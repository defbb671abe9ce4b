import Ramify.Proofs.C.RuleShapes
import Ramify.C.FrontEnd
import Mathlib

namespace Ramify.C

inductive Corresponds {ε ε' α α' : Type} (E : ε → ε' → Prop) (V : α → α' → Prop) : Except ε α → Except ε' α' → Prop
  | error {e : ε} {e' : ε'} : E e e' → Corresponds E V (.error e) (.error e')
  | ok {x : α} {x' : α'} : V x x' → Corresponds E V (.ok x) (.ok x')

namespace Corresponds

variable {ε ε' α α' β β' : Type} {E : ε → ε' → Prop} {V : α → α' → Prop} {W : β → β' → Prop} {x : Except ε α}
  {x' : Except ε' α'}

lemma bind (h : Corresponds E V x x') {f : α → Except ε β} {f' : α' → Except ε' β'}
    (hf : ∀ a a', V a a' → Corresponds E W (f a) (f' a')) : Corresponds E W (x >>= f) (x' >>= f') := by
  cases h with
  | error he => exact .error he
  | ok hv => exact hf _ _ hv

lemma map (h : Corresponds E V x x') {f : α → β} {f' : α' → β'} (hf : ∀ a a', V a a' → W (f a) (f' a')) :
    Corresponds E W (x.map f) (x'.map f') := by
  cases h with
  | error he => exact .error he
  | ok hv => exact .ok (hf _ _ hv)

end Corresponds

def Named (tokens : Array Token) (name : String) : Prop := ∃ t ∈ tokens, t.kind = .identifier ∧ t.text = name

/-- Two texts with the same kinds of tokens, the identifiers of the second those of the first renamed. Nothing
is said of spans, of values and of other texts. -/
structure Renames (ρ : String → String) (tokens tokens' : Array Token) : Prop where
  size_eq : tokens'.size = tokens.size
  kind_eq : ∀ {i : Nat} {t t' : Token}, tokens[i]? = some t → tokens'[i]? = some t' → t'.kind = t.kind
  text_eq : ∀ {i : Nat} {t t' : Token}, tokens[i]? = some t → tokens'[i]? = some t' → t.kind = .identifier →
    t'.text = ρ t.text
  injective : Set.InjOn ρ {name | Named tokens name}

variable {ρ : String → String} {tokens tokens' : Array Token}

structure Declared.Renamed (ρ : String → String) (tokens : Array Token) (d d' : Declared) : Prop where
  token_eq : d'.token = d.token
  name_eq : d'.name = ρ d.name
  named : Named tokens d.name

structure Annotations.Renamed (ρ : String → String) (tokens : Array Token) (x x' : Annotations) : Prop where
  typedef_eq : x'.typedef = x.typedef
  spec_eq : x'.spec = x.spec
  declares : List.Forall₂ (Declared.Renamed ρ tokens) x.declares x'.declares
  params : Option.Rel (List.Forall₂ (Declared.Renamed ρ tokens)) x.params x'.params

structure Part.Renamed (ρ : String → String) (tokens : Array Token) (part part' : Part) : Prop where
  kind_eq : part'.kind = part.kind
  annotations : Annotations.Renamed ρ tokens part.annotations part'.annotations

def Frame.Renamed (ρ : String → String) (tokens : Array Token) : Frame → Frame → Prop :=
  List.Forall₂ fun entry entry' => Named tokens entry.1 ∧ entry'.1 = ρ entry.1 ∧ entry'.2.kind = entry.2.kind

structure Scopes.Renamed (ρ : String → String) (tokens : Array Token) (s s' : Scopes) : Prop where
  inner : Frame.Renamed ρ tokens s.inner s'.inner
  outer : List.Forall₂ (Frame.Renamed ρ tokens) s.outer s'.outer

structure Context.Renamed (ρ : String → String) (tokens : Array Token) (c c' : Context) : Prop where
  scopes : Scopes.Renamed ρ tokens c.scopes c'.scopes
  pending : Option.Rel (List.Forall₂ (Declared.Renamed ρ tokens)) c.pending c'.pending

section Scopes

lemma Frame.Renamed.lookup (h : Renames ρ tokens tokens') {f f' : Frame} (hf : Frame.Renamed ρ tokens f f')
    {name : String} (hn : Named tokens name) :
    (List.lookup (ρ name) f').map Binding.kind = (List.lookup name f).map Binding.kind := by
  induction hf with
  | nil => rfl
  | @cons entry entry' f f' he _ ih =>
    obtain ⟨key, binding⟩ := entry
    obtain ⟨key', binding'⟩ := entry'
    obtain ⟨hkey, hrenamed, hkind⟩ := he
    dsimp only at hkey hrenamed hkind
    have hsame : (ρ name == key') = (name == key) := by
      rw [hrenamed, Bool.eq_iff_iff, beq_iff_eq, beq_iff_eq]
      exact h.injective.eq_iff hn hkey
    rw [List.lookup_cons, List.lookup_cons, hsame]
    split
    · exact congrArg some hkind
    · exact ih

namespace Scopes.Renamed

variable {s s' : Scopes}

lemma lookup (h : Renames ρ tokens tokens') (hs : Scopes.Renamed ρ tokens s s') {name : String}
    (hn : Named tokens name) : (s'.lookup (ρ name)).map Binding.kind = (s.lookup name).map Binding.kind := by
  rw [Scopes.lookup, Scopes.lookup]
  have hframes : List.Forall₂ (Frame.Renamed ρ tokens) (s.inner :: s.outer) (s'.inner :: s'.outer) :=
    .cons hs.inner hs.outer
  generalize s.inner :: s.outer = frames at hframes
  generalize s'.inner :: s'.outer = frames' at hframes
  induction hframes with
  | nil => rfl
  | @cons f f' _ _ hf _ ih =>
    have hkind := hf.lookup h hn
    rw [List.findSome?_cons, List.findSome?_cons]
    cases hl : List.lookup name f with
    | none =>
      rw [hl, Option.map_none, Option.map_eq_none_iff] at hkind
      rw [hkind]
      exact ih
    | some binding =>
      rw [hl, Option.map_some, Option.map_eq_some_iff] at hkind
      obtain ⟨binding', hl', he⟩ := hkind
      rw [hl']
      exact congrArg some he

lemma refusal? (h : Renames ρ tokens tokens') (hs : Scopes.Renamed ρ tokens s s') {name : String}
    (hn : Named tokens name) (kind : NameKind) : s'.refusal? kind (ρ name) = s.refusal? kind name := by
  rw [Scopes.refusal?.eq_def, Scopes.refusal?.eq_def, hs.lookup h hn]

lemma bind (hs : Scopes.Renamed ρ tokens s s') {d d' : Declared} (hd : d.Renamed ρ tokens d') (kind : NameKind) :
    Scopes.Renamed ρ tokens (s.bind d.name kind d.span) (s'.bind d'.name kind d'.span) :=
  ⟨.cons ⟨hd.named, hd.name_eq, rfl⟩ hs.inner, hs.outer⟩

lemma bindAll (hs : Scopes.Renamed ρ tokens s s') {names names' : List Declared}
    (hnames : List.Forall₂ (Declared.Renamed ρ tokens) names names') (kind : NameKind) :
    Scopes.Renamed ρ tokens (bindAll s kind names) (bindAll s' kind names') := by
  induction hnames generalizing s s' with
  | nil => exact hs
  | cons hd _ ih => exact ih (hs.bind hd kind)

lemma push (hs : Scopes.Renamed ρ tokens s s') : Scopes.Renamed ρ tokens s.push s'.push :=
  ⟨.nil, .cons hs.inner hs.outer⟩

lemma pop (hs : Scopes.Renamed ρ tokens s s') : Scopes.Renamed ρ tokens s.pop s'.pop := by
  obtain ⟨inner, outer⟩ := s
  obtain ⟨inner', outer'⟩ := s'
  obtain ⟨hinner, houter⟩ := hs
  cases houter with
  | nil => exact ⟨hinner, .nil⟩
  | cons hframe hrest => exact ⟨hframe, hrest⟩

end Scopes.Renamed

end Scopes

section Lists

variable {α α' β β' : Type} {r : α → α' → Prop} {l : List α} {l' : List α'}

lemma forall₂_any (h : List.Forall₂ r l l') {f : α → Bool} {f' : α' → Bool} (hf : ∀ x x', r x x' → f' x' = f x) :
    l'.any f' = l.any f := by
  induction h with
  | nil => rfl
  | cons hx _ ih => rw [List.any_cons, List.any_cons, hf _ _ hx, ih]

lemma forall₂_find? (h : List.Forall₂ r l l') {f : α → Bool} {f' : α' → Bool} (hf : ∀ x x', r x x' → f' x' = f x) :
    Option.Rel r (l.find? f) (l'.find? f') := by
  induction h with
  | nil => exact .none
  | cons hx _ ih =>
    rw [List.find?_cons, List.find?_cons, hf _ _ hx]
    split
    · exact .some hx
    · exact ih

lemma forall₂_findSome? {s : β → β' → Prop} (h : List.Forall₂ r l l') {f : α → Option β} {f' : α' → Option β'}
    (hf : ∀ x x', r x x' → Option.Rel s (f x) (f' x')) : Option.Rel s (l.findSome? f) (l'.findSome? f') := by
  induction h with
  | nil => exact .none
  | cons hx _ ih =>
    rw [List.findSome?_cons, List.findSome?_cons]
    have hhead := hf _ _ hx
    revert hhead
    generalize f _ = y
    generalize f' _ = y'
    rintro (hy | _)
    · exact .some hy
    · exact ih

lemma rel_or {x y : Option α} {x' y' : Option α'} (hx : Option.Rel r x x') (hy : Option.Rel r y y') :
    Option.Rel r (x.or y) (x'.or y') := by
  cases hx with
  | some h => exact .some h
  | none => exact hy

end Lists

def Leads (tokens : Array Token) (parts : List Part) : Prop :=
  ∀ part ∈ parts.head?, ∃ i t, part.kind = .terminal i ∧ tokens[i]? = some t ∧ t.kind = .identifier

inductive RefusesAlike : Refusal FrontError → Refusal FrontError → Prop
  | reject {e e' : FrontError} : e'.kind = e.kind → RefusesAlike (.reject e) (.reject e')
  | undefined : RefusesAlike .undefined .undefined

structure Reader.Renamed (ρ : String → String) (R R' : Reader) : Prop where
  vocabulary_eq : R'.vocabulary = R.vocabulary
  gateValues_eq : R'.gateValues = R.gateValues
  tokens : Renames ρ R.tokens R'.tokens

namespace Annotations.Renamed

lemma empty : Annotations.Renamed ρ tokens {} {} := ⟨rfl, rfl, .nil, .none⟩

end Annotations.Renamed

lemma Part.Renamed.category? {part part' : Part} (h : part.Renamed ρ tokens part') (V : Vocabulary) :
    part'.category? V = part.category? V := by
  rw [Part.category?, Part.category?, h.kind_eq]

namespace Reader.Renamed

variable {R R' : Reader} {parts parts' : List Part} {c c' : Context} {x x' : Annotations} (h : R.Renamed ρ R')

include h

lemma identifier {part part' : Part} (hp : part.Renamed ρ R.tokens part') {i : Nat} {t : Token}
    (hkind : part.kind = .terminal i) (ht : R.tokens[i]? = some t) (hid : t.kind = .identifier) :
    (R.identifier part).Renamed ρ R.tokens (R'.identifier part') := by
  obtain ⟨t', ht'⟩ : ∃ t', R'.tokens[i]? = some t' :=
    ⟨_, Array.getElem?_eq_getElem (h.tokens.size_eq ▸ (Array.getElem?_eq_some_iff.mp ht).1)⟩
  have hkind' : part'.kind = .terminal i := hp.kind_eq.trans hkind
  have htext := h.tokens.text_eq ht ht' hid
  refine ⟨?_, ?_, t, Array.mem_of_getElem? ht, hid, ?_⟩
  · simp [Reader.identifier, hkind, hkind']
  · simp [Reader.identifier, hkind, hkind', ht, ht', htext]
  · simp [Reader.identifier, hkind, ht]

section Parts

variable (hparts : List.Forall₂ (Part.Renamed ρ R.tokens) parts parts')

include hparts

lemma firstName (hl : Leads R.tokens parts) :
    Corresponds RefusesAlike (Declared.Renamed ρ R.tokens) (R.firstName parts) (R'.firstName parts') := by
  cases hparts with
  | nil => exact .error .undefined
  | cons hp _ =>
    obtain ⟨i, t, hkind, ht, hid⟩ := hl _ rfl
    exact .ok (h.identifier hp hkind ht hid)

lemma permit (hc : Context.Renamed ρ R.tokens c c') {role : Role} (hl : role.use?.isSome → Leads R.tokens parts) :
    Corresponds RefusesAlike (fun _ _ => True) (R.permit c.scopes role parts) (R'.permit c'.scopes role parts') := by
  rw [Reader.permit, Reader.permit]
  cases huse : role.use? with
  | none => exact .ok trivial
  | some kind =>
    have hgates : R'.gates kind = R.gates kind := by cases kind <;> simp [gates, h.gateValues_eq]
    dsimp only
    rw [hgates]
    split
    · rw [permitUse, permitUse]
      refine (h.firstName hparts (hl (by rw [huse]; rfl))).bind fun d d' hd => ?_
      rw [hd.name_eq, hc.scopes.refusal? h.tokens hd.named]
      split
      · exact .error (.reject rfl)
      · exact .ok trivial
    · exact .ok trivial

lemma roleAnnotations {role : Role} (hl : role = .declaratorName → Leads R.tokens parts) :
    Corresponds RefusesAlike (Annotations.Renamed ρ R.tokens) (R.roleAnnotations role parts)
      (R'.roleAnnotations role parts') := by
  cases role with
  | declaratorName =>
    exact (h.firstName hparts (hl rfl)).bind fun d d' hd => .ok ⟨rfl, rfl, .cons hd .nil, .none⟩
  | _ => exact .ok ⟨rfl, rfl, .nil, .none⟩

lemma declaredBy : List.Forall₂ (Declared.Renamed ρ R.tokens) (R.declaredBy parts) (R'.declaredBy parts') := by
  rw [Reader.declaredBy, Reader.declaredBy, h.vocabulary_eq]
  refine List.rel_flatMap (R := Part.Renamed ρ R.tokens)
    (List.rel_filter (fun part part' hp => ?_) hparts) fun part part' hp => hp.annotations.declares
  dsimp only
  rw [hp.category?]

lemma paramsOf (role : Role) : Option.Rel (List.Forall₂ (Declared.Renamed ρ R.tokens)) (R.paramsOf role parts)
    (R'.paramsOf role parts') := by
  have hdeclarators : List.Forall₂ (Part.Renamed ρ R.tokens) (parts.filter R.isDeclarator)
      (parts'.filter R'.isDeclarator) := by
    refine List.rel_filter (fun part part' hp => ?_) hparts
    dsimp only
    rw [isDeclarator.eq_def, isDeclarator.eq_def, h.vocabulary_eq, hp.category?]
  have hinside : Option.Rel (List.Forall₂ (Declared.Renamed ρ R.tokens))
      ((parts.filter R.isDeclarator).findSome? fun part => part.annotations.params)
      ((parts'.filter R'.isDeclarator).findSome? fun part => part.annotations.params) :=
    forall₂_findSome? hdeclarators fun _ _ hp => hp.annotations.params
  have hlist : Option.Rel (Part.Renamed ρ R.tokens)
      (parts.find? fun part => part.category? R.vocabulary == some .parameterTypeList)
      (parts'.find? fun part => part.category? R'.vocabulary == some .parameterTypeList) := by
    refine forall₂_find? hparts fun part part' hp => ?_
    rw [h.vocabulary_eq, hp.category?]
  rw [Reader.paramsOf.eq_def, Reader.paramsOf.eq_def]
  dsimp only
  revert hinside
  generalize (parts.filter R.isDeclarator).findSome? _ = inside
  generalize (parts'.filter R'.isDeclarator).findSome? _ = inside'
  rintro (hinside | _)
  · exact .some hinside
  · cases role with
    | functionDeclarator =>
      revert hlist
      generalize parts.find? _ = list
      generalize parts'.find? _ = list'
      rintro (hp | _)
      · exact .some hp.annotations.declares
      · exact .none
    | functionDeclaratorEmpty => exact .some .nil
    | _ => exact .none

lemma categoryAnnotations (role : Role) {category : Category} (hl : category = .enumerator → Leads R.tokens parts)
    (hx : Annotations.Renamed ρ R.tokens x x') : Corresponds RefusesAlike (Annotations.Renamed ρ R.tokens)
      (R.categoryAnnotations role category parts x) (R'.categoryAnnotations role category parts' x') := by
  have hdeclares := List.rel_append hx.declares (h.declaredBy hparts)
  have hspec (s : Specifiers) : parts'.foldl (fun s part => s.add part.annotations.spec) s =
      parts.foldl (fun s part => s.add part.annotations.spec) s := by
    clear hdeclares hl
    induction hparts generalizing s with
    | nil => rfl
    | cons hp _ ih => rw [List.foldl_cons, List.foldl_cons, hp.annotations.spec_eq, ih]
  have htypedef : (parts'.any fun part => part.annotations.typedef) = parts.any fun part => part.annotations.typedef :=
    forall₂_any hparts fun _ _ hp => hp.annotations.typedef_eq
  cases category
  case typeSpecifier =>
    rw [Reader.categoryAnnotations, Reader.categoryAnnotations]
    split
    · exact .ok hx
    · exact .ok { hx with spec_eq := rfl }
  case declarationSpecifiers | specifierQualifierList =>
    refine .ok { hx with typedef_eq := ?_, spec_eq := ?_ }
    · dsimp only
      rw [hx.typedef_eq, htypedef]
    · dsimp only
      rw [hx.spec_eq, hspec]
  case declarator | directDeclarator =>
    exact .ok { hx with declares := hdeclares, params := h.paramsOf hparts role }
  case declaratorInit | initDeclarator | initDeclaratorList | parameterDeclaration | parameterList
      | parameterTypeList => exact .ok { hx with declares := hdeclares }
  case declaration =>
    cases hparts with
    | nil => exact .error .undefined
    | cons hspecifiers hrest =>
      refine .ok { hx with typedef_eq := hspecifiers.annotations.typedef_eq, declares := ?_ }
      cases hrest with
      | nil => exact hx.declares
      | cons hlist hrest =>
        cases hrest with
        | nil => exact hx.declares
        | cons _ hrest =>
          cases hrest with
          | nil => exact hlist.annotations.declares
          | cons => exact hx.declares
  case enumerator =>
    exact (h.firstName hparts (hl rfl)).bind fun d d' hd => .ok { hx with declares := .cons hd .nil }
  all_goals exact .ok hx

end Parts

end Reader.Renamed

lemma checkSpecifiers_renamed {x x' : Annotations} (hx : Annotations.Renamed ρ tokens x x') (category : Category)
    (span span' : Span) : Corresponds RefusesAlike (fun _ _ => True) (Reader.checkSpecifiers category span x)
      (Reader.checkSpecifiers category span' x') := by
  cases category
  case declarationSpecifiers | specifierQualifierList =>
    rw [Reader.checkSpecifiers, Reader.checkSpecifiers, hx.spec_eq]
    split
    · exact .ok trivial
    · exact .error (.reject rfl)
  all_goals exact .ok trivial

lemma Context.Renamed.advance {c c' : Context} {x x' : Annotations} (hc : Context.Renamed ρ tokens c c')
    (hx : Annotations.Renamed ρ tokens x x') (role : Role) (category : Category) :
    Context.Renamed ρ tokens (Reader.advance c role category x) (Reader.advance c' role category x') := by
  cases category
  case declarator => exact { hc with pending := rel_or hx.params hc.pending }
  case declaratorInit | enumerator => exact { hc with scopes := hc.scopes.bindAll hx.declares _ }
  case declaration =>
    rw [Reader.advance, Reader.advance, hx.typedef_eq]
    exact { hc with scopes := hc.scopes.bindAll hx.declares _ }
  case blockOpen =>
    refine ⟨hc.scopes.push.bindAll ?_ _, .none⟩
    have hpending := hc.pending
    revert hpending
    generalize c.pending = p
    generalize c'.pending = p'
    rintro (hp | _)
    · exact hp
    · exact .nil
  case compoundStatement => exact { hc with scopes := hc.scopes.pop }
  case iterationStatement =>
    rw [Reader.advance, Reader.advance]
    split
    · exact { hc with scopes := hc.scopes.pop }
    · exact hc
  all_goals exact hc

lemma Context.Renamed.contextAfter {c c' : Context} (hc : Context.Renamed ρ tokens c c') (kind : TokenKind) :
    Context.Renamed ρ tokens (Reader.contextAfter c kind) (Reader.contextAfter c' kind) := by
  rw [Reader.contextAfter, Reader.contextAfter]
  refine ⟨?_, ?_⟩
  · dsimp only
    split
    · exact hc.scopes.push
    · exact hc.scopes
  · dsimp only
    split
    · exact hc.pending
    · exact .none

/-- A production reads a name off its first part only where it uses or introduces one. -/
def ReadsName (role : Role) (category : Category) : Prop :=
  role.use?.isSome ∨ role = .declaratorName ∨ category = .enumerator

namespace Reader.Renamed

variable {R R' : Reader} {parts parts' : List Part} {c c' : Context} (h : R.Renamed ρ R')

include h

lemma interpret (hparts : List.Forall₂ (Part.Renamed ρ R.tokens) parts parts') (hc : Context.Renamed ρ R.tokens c c')
    {p : Nat} (hl : ReadsName (R.vocabulary.role p) (R.vocabulary.category p) → Leads R.tokens parts) :
    Corresponds RefusesAlike (fun r r' => Context.Renamed ρ R.tokens r.1 r'.1 ∧ Annotations.Renamed ρ R.tokens r.2 r'.2)
      (R.interpret c p parts) (R'.interpret c' p parts') := by
  by_cases hcovers : R.vocabulary.Covers p
  case neg =>
    rw [Reader.interpret_of_not_covers hcovers, Reader.interpret_of_not_covers (h.vocabulary_eq ▸ hcovers)]
    exact .error .undefined
  rw [Reader.interpret_of_covers hcovers, Reader.interpret_of_covers (h.vocabulary_eq ▸ hcovers),
    Reader.interpretAs, Reader.interpretAs, h.vocabulary_eq]
  refine (h.permit hparts hc fun huse => hl (Or.inl huse)).bind fun _ _ _ => ?_
  have hann : Corresponds RefusesAlike (Annotations.Renamed ρ R.tokens)
      (R.annotate (R.vocabulary.role p) (R.vocabulary.category p) parts)
      (R'.annotate (R.vocabulary.role p) (R.vocabulary.category p) parts') :=
    (h.roleAnnotations hparts fun hrole => hl (Or.inr (Or.inl hrole))).bind fun _ _ hx =>
      h.categoryAnnotations hparts _ (fun hcategory => hl (Or.inr (Or.inr hcategory))) hx
  refine hann.bind fun x x' hx => (checkSpecifiers_renamed hx _ _ _).bind fun _ _ _ => ?_
  exact .ok ⟨hc.advance hx _ _, hx⟩

end Reader.Renamed

end Ramify.C
