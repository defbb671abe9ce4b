import Ramify.Proofs.C.TreeReading
import Ramify.Proofs.Parse.Stacks
import Ramify.Proofs.Search.Restriction

/-! Provisional scopes. The context of a path is that behind the trees on its stack, each read in
the context behind those before it; so a finished tree tells in which context each of its
nodes was made, and what was to be refused there. The reader finds the trees that the table
allows in which nothing was to be refused. -/

namespace Ramify.C

namespace Checker

variable (K : Checker)

mutual

def after (ctx : Context) : Tree → Context
  | .leaf token _ => (K.tokens[token]?).elim ctx fun t => Reader.contextAfter ctx t.kind
  | .node p _ annotations children =>
    Reader.advance (afterAll ctx children) (K.vocabulary.role p) (K.vocabulary.category p) annotations

def afterAll (ctx : Context) : List Tree → Context
  | [] => ctx
  | t :: rest => afterAll (after ctx t) rest

end

/-- What is asked of a node: of its production, its annotations and its children, and of the
context behind them. -/
abbrev Query := Context → Nat → Annotations → List Tree → Bool

mutual

def everywhere (f : Query) (ctx : Context) : Tree → Bool
  | .leaf _ _ => true
  | .node p _ annotations children =>
    everywhereAll f ctx children && f (K.afterAll ctx children) p annotations children

def everywhereAll (f : Query) (ctx : Context) : List Tree → Bool
  | [] => true
  | t :: rest => everywhere f ctx t && everywhereAll f (K.after ctx t) rest

end

def knows (kind : NameKind) : Query := fun ctx p _ children =>
  (K.vocabulary.role p).use? != some kind ||
    children.head?.any fun t => (ctx.scopes.refusal? kind (K.leafName t).name).isNone

def agrees : Query := fun _ p annotations _ =>
  match K.vocabulary.category p with
  | .declarationSpecifiers | .specifierQualifierList => annotations.spec.isConsistent
  | _ => true

lemma afterAll_append (ctx : Context) (ts us : List Tree) :
    K.afterAll ctx (ts ++ us) = K.afterAll (K.afterAll ctx ts) us := by
  induction ts generalizing ctx with
  | nil => rw [List.nil_append, afterAll]
  | cons t ts ih => rw [List.cons_append, afterAll, afterAll, ih]

lemma everywhereAll_append (f : Query) (ctx : Context) (ts us : List Tree) :
    K.everywhereAll f ctx (ts ++ us) = (K.everywhereAll f ctx ts && K.everywhereAll f (K.afterAll ctx ts) us) := by
  induction ts generalizing ctx with
  | nil => rw [List.nil_append, everywhereAll, afterAll, Bool.true_and]
  | cons t ts ih => rw [List.cons_append, everywhereAll, everywhereAll, afterAll, ih, Bool.and_assoc]

end Checker

namespace Reader

variable (R : Reader)

def checker : Checker := ⟨R.vocabulary, R.tokens⟩

def asks : Checker.Query := fun ctx p annotations children =>
  R.checker.knows .typedef ctx p annotations children &&
    (!R.gateValues || R.checker.knows .ordinary ctx p annotations children) &&
      R.checker.agrees ctx p annotations children

def made (ctx : Context) (p : Production) (children : List Tree) (annotations : Annotations) : Context × Tree :=
  (advance ctx (R.vocabulary.role p.index) (R.vocabulary.category p.index) annotations,
    .node p.index (spanOf (children.map Tree.part)) annotations children)

def annotationsOf (p : Production) (children : List Tree) : Outcome Annotations :=
  match R.vocabulary.role? p.index, R.vocabulary.category? p.index with
  | some role, some category => R.annotate role category (children.map Tree.part)
  | _, _ => .error .undefined

lemma annotationsOf_of_covers {p : Production} (h : R.vocabulary.Covers p.index) (children : List Tree) :
    R.annotationsOf p children =
      R.annotate (R.vocabulary.role p.index) (R.vocabulary.category p.index) (children.map Tree.part) := by
  rw [annotationsOf, h.role?_eq, h.category?_eq]

lemma annotationsOf_of_not_covers {p : Production} (h : ¬ R.vocabulary.Covers p.index) (children : List Tree) :
    R.annotationsOf p children = .error .undefined := by
  rw [annotationsOf]
  split
  · rename_i role category hrole hcategory
    exact absurd ⟨Option.isSome_of_eq_some hrole, Option.isSome_of_eq_some hcategory⟩ h
  · rfl

lemma covers_of_annotationsOf {p : Production} {children : List Tree} {annotations : Annotations}
    (h : R.annotationsOf p children = .ok annotations) : R.vocabulary.Covers p.index := by
  by_contra hnot
  rw [R.annotationsOf_of_not_covers hnot] at h
  cases h

def looseBuilder : Builder Token Tree Context FrontError Unit where
  terminal t := R.vocabulary.terminal? t.kind
  initial := {}
  shift _ ctx token index := ((), .ok (contextAfter ctx token.kind, .leaf index token.span))
  reduce _ ctx p children := ((), (R.annotationsOf p children).map (R.made ctx p children))
  syntaxError t _ := unexpected t

def Answers (f : Checker.Query) (ctx : Context) (p : Production) (children : List Tree) : Prop :=
  ∀ annotations, R.annotationsOf p children = .ok annotations → f ctx p.index annotations children = true

lemma leafName_eq (t : Tree) : R.checker.leafName t = R.identifier t.part := by
  cases t <;> rfl

lemma permitUse_ok_iff (scopes : Scopes) (kind : NameKind) (children : List Tree) :
    R.permitUse scopes kind (children.map Tree.part) = .ok () ↔
      (children.head?.any fun t => (scopes.refusal? kind (R.checker.leafName t).name).isNone) = true := by
  cases children with
  | nil => simp [permitUse, firstName, bind, Except.bind]
  | cons t rest =>
    simp only [permitUse, firstName, bind, Except.bind, List.map_cons, List.head?_cons, Option.any_some,
      Option.isNone_iff_eq_none, leafName_eq]
    cases scopes.refusal? kind (R.identifier t.part).name with
    | none => simp [pure, Except.pure]
    | some error => simp

lemma permit_ok_iff (ctx : Context) (p : Nat) (annotations : Annotations) (children : List Tree) :
    R.permit ctx.scopes (R.vocabulary.role p) (children.map Tree.part) = .ok () ↔
      (R.checker.knows .typedef ctx p annotations children &&
        (!R.gateValues || R.checker.knows .ordinary ctx p annotations children)) = true := by
  have hv : R.checker.vocabulary = R.vocabulary := rfl
  rw [permit, Checker.knows, Checker.knows, hv]
  cases (R.vocabulary.role p).use? with
  | none => simp
  | some kind =>
    dsimp only
    cases kind with
    | typedef =>
      rw [if_pos (show R.gates .typedef = true from rfl), permitUse_ok_iff]
      simp
    | ordinary =>
      have hgates : R.gates .ordinary = R.gateValues := rfl
      rw [hgates]
      cases R.gateValues with
      | false => simp
      | true =>
        rw [if_pos rfl, permitUse_ok_iff]
        simp

lemma checkSpecifiers_ok_iff (ctx : Context) (p : Nat) (span : Span) (annotations : Annotations)
    (children : List Tree) : checkSpecifiers (R.vocabulary.category p) span annotations = .ok () ↔
      R.checker.agrees ctx p annotations children = true := by
  have hv : R.checker.vocabulary = R.vocabulary := rfl
  rw [checkSpecifiers.eq_def, Checker.agrees, hv]
  cases R.vocabulary.category p
  case declarationSpecifiers | specifierQualifierList =>
    dsimp only
    split
    · rename_i h
      simp [h]
    · rename_i h
      simp [h]
  all_goals exact ⟨fun _ => rfl, fun _ => rfl⟩

lemma interpret_ok_iff (ctx : Context) (p : Production) (children : List Tree) (r : Context × Annotations) :
    R.interpret ctx p.index (children.map Tree.part) = .ok r ↔ R.annotationsOf p children = .ok r.2 ∧
      r.1 = (R.made ctx p children r.2).1 ∧ R.asks ctx p.index r.2 children = true := by
  have hpermit := R.permit_ok_iff ctx p.index r.2 children
  have hcheck := R.checkSpecifiers_ok_iff ctx p.index (spanOf (children.map Tree.part)) r.2 children
  by_cases hcovers : R.vocabulary.Covers p.index
  case neg =>
    rw [interpret_of_not_covers hcovers, R.annotationsOf_of_not_covers hcovers]
    simp
  rw [interpret_of_covers hcovers, interpretAs, R.annotationsOf_of_covers hcovers, asks, Bool.and_eq_true,
    ← hpermit, ← hcheck, made]
  cases R.permit ctx.scopes (R.vocabulary.role p.index) (children.map Tree.part) with
  | error e => simp [bind, Except.bind]
  | ok u =>
    cases R.annotate (R.vocabulary.role p.index) (R.vocabulary.category p.index) (children.map Tree.part) with
    | error e => simp [bind, Except.bind]
    | ok annotations =>
      obtain ⟨ctx', annotations'⟩ := r
      simp only [bind, Except.bind]
      constructor
      · intro h
        split at h
        · cases h
        · rename_i hok
          cases h
          exact ⟨rfl, rfl, trivial, hok⟩
      · rintro ⟨hann, hctx, _, hok⟩
        cases hann
        cases hctx
        rw [hok]
        rfl

structure Builds (B : Builder Token Tree Context FrontError Unit) : Prop where
  terminal_eq : B.terminal = R.looseBuilder.terminal
  initial_eq : B.initial = {}
  shift_eq : B.shift = R.looseBuilder.shift
  reduce_ok {ctx : Context} {p : Production} {children : List Tree} {r : Context × Tree} :
    B.reduce () ctx p children = ((), .ok r) →
    ∃ annotations, R.annotationsOf p children = .ok annotations ∧ r = R.made ctx p children annotations

lemma builds_loose : R.Builds R.looseBuilder where
  terminal_eq := rfl
  initial_eq := rfl
  shift_eq := rfl
  reduce_ok := by
    intro ctx p children r h
    have h₂ : (R.annotationsOf p children).map (R.made ctx p children) = .ok r := congrArg Prod.snd h
    cases ha : R.annotationsOf p children with
    | error e =>
      rw [ha] at h₂
      cases h₂
    | ok annotations =>
      rw [ha] at h₂
      exact ⟨annotations, rfl, (Except.ok.inj h₂).symm⟩

lemma looseBuilder_ok_iff {ctx : Context} {p : Production} {children : List Tree} {r : Context × Tree} :
    R.looseBuilder.reduce () ctx p children = ((), .ok r) ↔
      ∃ annotations, R.annotationsOf p children = .ok annotations ∧ r = R.made ctx p children annotations := by
  refine ⟨R.builds_loose.reduce_ok, ?_⟩
  rintro ⟨annotations, ha, rfl⟩
  change ((), (R.annotationsOf p children).map _) = _
  rw [ha]
  rfl

lemma treeBuilder_ok_iff {ctx : Context} {p : Production} {children : List Tree} {r : Context × Tree} :
    R.treeBuilder.reduce () ctx p children = ((), .ok r) ↔
      ∃ annotations, R.annotationsOf p children = .ok annotations ∧ r = R.made ctx p children annotations ∧
        R.asks ctx p.index annotations children = true := by
  have hreduce : R.treeBuilder.reduce () ctx p children =
      ((), (R.interpret ctx p.index (children.map Tree.part)).map fun r =>
        (r.1, .node p.index (spanOf (children.map Tree.part)) r.2 children)) := rfl
  rw [hreduce]
  constructor
  · intro h
    cases hi : R.interpret ctx p.index (children.map Tree.part) with
    | error e =>
      rw [hi] at h
      cases h
    | ok r' =>
      obtain ⟨ha, hctx, hasks⟩ := (R.interpret_ok_iff ctx p children r').mp hi
      rw [hi] at h
      cases h
      exact ⟨r'.2, ha, Prod.ext hctx rfl, hasks⟩
  · rintro ⟨annotations, ha, rfl, hasks⟩
    rw [(R.interpret_ok_iff ctx p children ((R.made ctx p children annotations).1, annotations)).mpr
      ⟨ha, rfl, hasks⟩]
    rfl

lemma builds_tree : R.Builds R.treeBuilder where
  terminal_eq := rfl
  initial_eq := rfl
  shift_eq := rfl
  reduce_ok h := by
    obtain ⟨annotations, ha, hr, _⟩ := R.treeBuilder_ok_iff.mp h
    exact ⟨annotations, ha, hr⟩

lemma treeBuilder_restricts : R.treeBuilder.Restricts R.looseBuilder (R.Answers R.asks) where
  terminal_eq := rfl
  initial_eq := rfl
  shift_eq := rfl
  reduce_ok ctx p children r := by
    rw [treeBuilder_ok_iff, looseBuilder_ok_iff]
    constructor
    · rintro ⟨annotations, ha, hr, hasks⟩
      refine ⟨fun annotations' ha' => ?_, annotations, ha, hr⟩
      cases ha.symm.trans ha'
      exact hasks
    · rintro ⟨hanswers, annotations, ha, hr⟩
      exact ⟨annotations, ha, hr, hanswers annotations ha⟩

section Paths

open Search

variable {R} {L : Parser Token Tree Context FrontError Unit} {prefers : List String} {g : Grammar}
  {Good : Symbol → Tree → Prop} {p q : Path Tree Context} {token : Token} {actions : List Action} {action : Action}

structure Traces (R : Reader) (L : Parser Token Tree Context FrontError Unit) (g : Grammar)
    (Good : Symbol → Tree → Prop) (p : Path Tree Context) : Prop where
  stands : ∃ symbols, L.Stands R.tokens g Good p symbols
  context_eq : p.context = R.checker.afterAll {} p.values.reverse

lemma reverse_drop_append_take (values : List Tree) (n : Nat) :
    (values.drop n).reverse ++ (values.take n).reverse = values.reverse := by
  rw [← List.reverse_append, List.take_append_drop]

lemma Traces.next (hC : L.Constructed prefers g) (hB : R.Builds L.builder) (h : R.Traces L g Good p)
    (hc : L.cell R.tokens p = some (token, actions)) (ha : action ∈ actions)
    (hm : L.move R.tokens () p token action = ((), .next q)) (f : Checker.Query) :
    q.context = R.checker.afterAll {} q.values.reverse ∧
      (R.checker.everywhereAll f {} q.values.reverse = true ↔
        R.checker.everywhereAll f {} p.values.reverse = true ∧ L.Allows (R.Answers f) p action) := by
  cases action with
  | shift target =>
    obtain ⟨symbols, hp⟩ := h.stands
    obtain ⟨_, _, _, _, htok, _, _⟩ := hp.mem_cell hC hc ha
    obtain ⟨_, context, value, hb, rfl⟩ := Parser.shift_next hm
    rw [hB.shift_eq] at hb
    obtain ⟨rfl, rfl⟩ : contextAfter p.context token.kind = context ∧ .leaf p.position token.span = value := by
      cases hb
      exact ⟨rfl, rfl⟩
    dsimp only
    rw [List.reverse_cons, Checker.afterAll_append, Checker.everywhereAll_append, Checker.afterAll,
      Checker.afterAll, Checker.after, Checker.everywhereAll, Checker.everywhereAll, Checker.everywhere]
    have htok' : R.checker.tokens[p.position]? = some token := htok
    rw [htok', ← h.context_eq]
    exact ⟨rfl, by simp [Parser.Allows]⟩
  | reduce index =>
    obtain ⟨production, exposed, target, context, value, hp, he, hv, hg, hb, rfl⟩ := Parser.reduce_next hm
    obtain ⟨annotations, hann, hmade⟩ := hB.reduce_ok hb
    obtain ⟨rfl, rfl⟩ := Prod.mk.inj hmade
    set children := (p.values.take production.rhs.length).reverse
    have hsplit : p.values.reverse = (p.values.drop production.rhs.length).reverse ++ children :=
      (reverse_drop_append_take p.values _).symm
    have hcontext := h.context_eq
    rw [hsplit, Checker.afterAll_append] at hcontext
    have hallows : L.Allows (R.Answers f) p (.reduce index) ↔
        f p.context production.index annotations children = true := by
      constructor
      · exact fun h => h production hp annotations hann
      · intro hf production' hp' annotations' hann'
        obtain rfl := Option.some.inj (hp.symm.trans hp')
        cases hann.symm.trans hann'
        exact hf
    dsimp only [made]
    rw [List.reverse_cons, hsplit, Checker.afterAll_append, Checker.everywhereAll_append,
      Checker.everywhereAll_append, Checker.afterAll, Checker.afterAll, Checker.after, Checker.everywhereAll,
      Checker.everywhereAll, Checker.everywhere, ← hcontext, hallows]
    refine ⟨rfl, ?_⟩
    simp [and_assoc]
  | accept => exact absurd hm Parser.accept_ne_next

lemma traces_start (hB : R.Builds L.builder) (hne : 0 < R.tokens.size) :
    R.Traces L g Good (L.start ()).path :=
  ⟨⟨[], Parser.stands_start hne ()⟩, hB.initial_eq⟩

lemma Traces.movesTo (hC : L.Constructed prefers g) (hK : L.builder.Keeps R.tokens g.productions Good)
    (hB : R.Builds L.builder) (h : R.Traces L g Good p) (hm : L.MovesTo R.tokens p q) : R.Traces L g Good q := by
  refine ⟨Parser.Stands.movesTo hC hK h.stands hm, ?_⟩
  obtain ⟨token, actions, action, _, _, hc, ha, hm⟩ := hm
  exact (h.next hC hB hc ha hm fun _ _ _ _ => true).1

lemma Builds.tells (hB : R.Builds L.builder) (hC : L.Constructed prefers g)
    (hK : L.builder.Keeps R.tokens g.productions Good) (hne : 0 < R.tokens.size) (f : Checker.Query) :
    L.Tells R.tokens (R.Answers f) (R.Traces L g Good)
      fun values => R.checker.everywhereAll f {} values.reverse = true where
  start := traces_start hB hne
  keeps h hm := h.movesTo hC hK hB hm
  nil := rfl
  move h hc ha hm := (h.next hC hB hc ha hm f).2

end Paths

end Reader

end Ramify.C
