import Ramify.Proofs.C.ScopeKinds

/-! The rules of scope as a recursion on trees. What a block, a `for` statement or a parameter
list declares is forgotten at its end: the scopes behind it are those before it. The check of
a tree, which works through a stack and closes each scope it has opened, comes to the same
result with the same first fault. -/

namespace Ramify.C.Checker

variable (K : Checker)

def block (s : Scopes) (inside : Scopes → Except Fault Scopes) : Except Fault Scopes :=
  (inside s.push).map fun _ => s

mutual

/-- The scopes behind a tree that stands in the scopes `s`, where `kind` is the kind of the names
that the declaration around it introduces. -/
def evaluate (kind : Option NameKind) (s : Scopes) : Tree → Except Fault Scopes
  | .leaf _ _ => .ok s
  | .node p _ annotations children =>
    match K.vocabulary.role? p with
    | none => .error (.undefined p)
    | some role =>
      match role.use? with
      | some use => (K.expect p s use children).map fun _ => s
      | none =>
        if role = .declaratorName then .ok s
        else match K.vocabulary.category? p with
        | none => .error (.undefined p)
        | some .functionDefinition => evaluateFunction p kind s children
        | some .compoundStatement => block s fun s => evaluateAll kind s children
        | some .iterationStatement =>
          if role = .forLoop then block s fun s => evaluateAll kind s children else evaluateAll kind s children
        | some .declaration =>
          evaluateAll (some (if annotations.typedef then .typedef else .ordinary)) s children
        | some .initDeclarator => evaluateInitialized p kind s annotations.declares children
        | some .parameterDeclaration => do
          declareAll (← evaluateAll kind s children) .ordinary annotations.declares
        | some .directDeclarator | some .directAbstractDeclarator => evaluateParts kind s children
        | some .enumerator => evaluateEnumerator p kind s children
        | some _ => evaluateAll kind s children

def evaluateAll (kind : Option NameKind) (s : Scopes) : List Tree → Except Fault Scopes
  | [] => .ok s
  | t :: rest => do evaluateAll kind (← evaluate kind s t) rest

def evaluateFunction (p : Nat) (kind : Option NameKind) (s : Scopes) : List Tree → Except Fault Scopes
  | specifiers :: declarator :: body :: _ => do
    let s ← evaluate kind s specifiers
    let s ← evaluate kind s declarator
    let s ← declareAll s .ordinary declarator.annotations.declares
    block s fun s => do
      evaluateItems kind (← declareAll s .ordinary (declarator.annotations.params.getD [])) body
  | _ => .error (.undefined p)

def evaluateItems (kind : Option NameKind) (s : Scopes) : Tree → Except Fault Scopes
  | .leaf _ _ => .ok s
  | .node _ _ _ items => evaluateAll kind s items

def evaluateInitialized (p : Nat) (kind : Option NameKind) (s : Scopes) (declares : List Declared) :
    List Tree → Except Fault Scopes
  | [] => .error (.undefined p)
  | declarator :: rest => do
    let s ← evaluate kind s declarator
    evaluateAll kind (← declareAll s (kind.getD .ordinary) declares) rest

def evaluateParts (kind : Option NameKind) (s : Scopes) : List Tree → Except Fault Scopes
  | [] => .ok s
  | t :: rest =>
    (if K.isParameterList t then block s fun s => evaluate kind s t else evaluate kind s t) >>=
      fun s => evaluateParts kind s rest

def evaluateEnumerator (p : Nat) (kind : Option NameKind) (s : Scopes) : List Tree → Except Fault Scopes
  | [] => .error (.undefined p)
  | name :: rest => do declare (← evaluateAll kind s rest) .ordinary (K.leafName name)

end

def Surrounded (s : Scopes) (x : Except Fault Scopes) : Prop := ∀ s', x = .ok s' →
  s'.outer = s.outer ∧ ∀ name kind, s.local? name = some kind → s'.local? name = some kind

section Surrounded

variable {s : Scopes} {x : Except Fault Scopes} {f : Scopes → Except Fault Scopes}

lemma surrounded_ok (s : Scopes) : Surrounded s (.ok s) := by
  rintro _ ⟨⟩
  exact ⟨rfl, fun _ _ => id⟩

lemma surrounded_error (s : Scopes) (e : Fault) : Surrounded s (.error e) := nofun

lemma Surrounded.bind (hx : Surrounded s x) (hf : ∀ s, Surrounded s (f s)) : Surrounded s (x >>= f) := by
  intro s' h
  cases x with
  | error e => cases h
  | ok s₁ =>
    obtain ⟨houter, hlocal⟩ := hx s₁ rfl
    obtain ⟨houter', hlocal'⟩ := hf s₁ s' h
    exact ⟨houter'.trans houter, fun name kind hk => hlocal' name kind (hlocal name kind hk)⟩

lemma surrounded_map_const {α : Type} (s : Scopes) (x : Except Fault α) :
    Surrounded s (x.map fun _ => s) := by
  intro s' h
  cases x <;> cases h
  exact ⟨rfl, fun _ _ => id⟩

lemma surrounded_block (s : Scopes) (f : Scopes → Except Fault Scopes) : Surrounded s (block s f) :=
  surrounded_map_const s _

lemma surrounded_declare (s : Scopes) (kind : NameKind) (d : Declared) : Surrounded s (declare s kind d) := by
  intro s' h
  exact ⟨(declares_of_declare h).outer_eq, fun _ _ => (declares_of_declare h).local_mono⟩

lemma surrounded_declareAll (s : Scopes) (kind : NameKind) (names : List Declared) :
    Surrounded s (declareAll s kind names) := by
  intro s' h
  exact ⟨(declares_of_declareAll h).outer_eq, fun _ _ => (declares_of_declareAll h).local_mono⟩

end Surrounded

mutual

lemma surrounded_evaluate (kind : Option NameKind) (s : Scopes) : ∀ t, Surrounded s (K.evaluate kind s t)
  | .leaf _ _ => by
    rw [evaluate]
    exact surrounded_ok s
  | .node p _ annotations children => by
    rw [evaluate]
    cases K.vocabulary.role? p with
    | none => exact surrounded_error s _
    | some role =>
      dsimp only
      cases role.use? with
      | some use => exact surrounded_map_const s _
      | none =>
        dsimp only
        split
        · exact surrounded_ok s
        cases K.vocabulary.category? p with
        | none => exact surrounded_error s _
        | some category =>
          cases category
          case functionDefinition => exact surrounded_evaluateFunction p kind s children
          case compoundStatement => exact surrounded_block s _
          case iterationStatement =>
            dsimp only
            split
            · exact surrounded_block s _
            · exact surrounded_evaluateAll kind s children
          case declaration => exact surrounded_evaluateAll _ s children
          case initDeclarator => exact surrounded_evaluateInitialized p kind s _ children
          case parameterDeclaration =>
            exact (surrounded_evaluateAll kind s children).bind fun s => surrounded_declareAll s _ _
          case directDeclarator | directAbstractDeclarator => exact surrounded_evaluateParts kind s children
          case enumerator => exact surrounded_evaluateEnumerator p kind s children
          all_goals exact surrounded_evaluateAll kind s children

lemma surrounded_evaluateAll (kind : Option NameKind) (s : Scopes) :
    ∀ ts, Surrounded s (K.evaluateAll kind s ts)
  | [] => by
    rw [evaluateAll]
    exact surrounded_ok s
  | t :: rest => by
    rw [evaluateAll]
    exact (surrounded_evaluate kind s t).bind fun s => surrounded_evaluateAll kind s rest

lemma surrounded_evaluateFunction (p : Nat) (kind : Option NameKind) (s : Scopes) :
    ∀ ts, Surrounded s (K.evaluateFunction p kind s ts)
  | specifiers :: declarator :: body :: _ => by
    rw [evaluateFunction]
    exact (surrounded_evaluate kind s specifiers).bind fun s =>
      (surrounded_evaluate kind s declarator).bind fun s =>
        (surrounded_declareAll s _ _).bind fun s => surrounded_block s _
  | [] | [_] | [_, _] => by
    rw [evaluateFunction]
    · exact surrounded_error s _
    · exact nofun

lemma surrounded_evaluateItems (kind : Option NameKind) (s : Scopes) :
    ∀ t, Surrounded s (K.evaluateItems kind s t)
  | .leaf _ _ => by
    rw [evaluateItems]
    exact surrounded_ok s
  | .node _ _ _ items => by
    rw [evaluateItems]
    exact surrounded_evaluateAll kind s items

lemma surrounded_evaluateInitialized (p : Nat) (kind : Option NameKind) (s : Scopes) (names : List Declared) :
    ∀ ts, Surrounded s (K.evaluateInitialized p kind s names ts)
  | [] => by
    rw [evaluateInitialized]
    exact surrounded_error s _
  | declarator :: rest => by
    rw [evaluateInitialized]
    exact (surrounded_evaluate kind s declarator).bind fun s =>
      (surrounded_declareAll s _ names).bind fun s => surrounded_evaluateAll kind s rest

lemma surrounded_evaluateParts (kind : Option NameKind) (s : Scopes) :
    ∀ ts, Surrounded s (K.evaluateParts kind s ts)
  | [] => by
    rw [evaluateParts]
    exact surrounded_ok s
  | t :: rest => by
    have ht : Surrounded s (if K.isParameterList t then block s fun s => K.evaluate kind s t
        else K.evaluate kind s t) := by
      split
      · exact surrounded_block s _
      · exact surrounded_evaluate kind s t
    rw [evaluateParts]
    exact ht.bind fun s => surrounded_evaluateParts kind s rest

lemma surrounded_evaluateEnumerator (p : Nat) (kind : Option NameKind) (s : Scopes) :
    ∀ ts, Surrounded s (K.evaluateEnumerator p kind s ts)
  | [] => by
    rw [evaluateEnumerator]
    exact surrounded_error s _
  | name :: rest => by
    rw [evaluateEnumerator]
    exact (surrounded_evaluateAll kind s rest).bind fun s => surrounded_declare s _ _

end

def Amounts (w : Walk) (todo : List Work) (x : Except Fault Scopes) : Prop :=
  K.run w todo = x.map fun scopes => { w with scopes }

section Amounts

variable {K} {w : Walk} {todo others : List Work} {x : Except Fault Scopes}
  {f : Scopes → Except Fault Scopes}

lemma run_cons (w : Walk) (work : Work) (todo : List Work) :
    K.run w (work :: todo) = K.step w work >>= fun r => K.run r.1 (r.2 ++ todo) := by
  rw [run]
  split
  · rename_i h
    rw [h]
    rfl
  · rename_i h
    rw [h]
    rfl

lemma run_append (w : Walk) (todo others : List Work) :
    K.run w (todo ++ others) = K.run w todo >>= fun w => K.run w others := by
  induction w, todo using run.induct K with
  | case1 w =>
    rw [List.nil_append, run]
    rfl
  | case2 w work todo e h =>
    rw [List.cons_append, run_cons, run_cons, h]
    rfl
  | case3 w work todo w' more h ih =>
    rw [List.cons_append, run_cons, run_cons, h]
    change K.run w' (more ++ (todo ++ others)) = K.run w' (more ++ todo) >>= _
    rw [← List.append_assoc, ih]

lemma run_single (w : Walk) (work : Work) :
    K.run w [work] = K.step w work >>= fun r => K.run r.1 r.2 := by
  rw [run_cons]
  simp only [List.append_nil]

lemma Amounts.nil (w : Walk) : K.Amounts w [] (.ok w.scopes) := by
  rw [Amounts, run]
  rfl

lemma Amounts.append (h : K.Amounts w todo x)
    (h' : ∀ s, K.Amounts { w with scopes := s } others (f s)) : K.Amounts w (todo ++ others) (x >>= f) := by
  rw [Amounts, run_append, h]
  cases x with
  | error e => rfl
  | ok s => exact h' s

lemma Amounts.cons {work : Work} (h : K.Amounts w [work] x)
    (h' : ∀ s, K.Amounts { w with scopes := s } todo (f s)) : K.Amounts w (work :: todo) (x >>= f) :=
  h.append h'

lemma Amounts.of_step {work : Work} (h : K.step w work = x.map fun scopes => ({ w with scopes }, [])) :
    K.Amounts w [work] x := by
  rw [Amounts, run_single, h]
  cases x with
  | error e => rfl
  | ok s =>
    change K.run { w with scopes := s } [] = _
    rw [run]
    rfl

lemma Amounts.enclosed (h : K.Amounts { w with scopes := w.scopes.push } todo (f w.scopes.push))
    (hf : Surrounded w.scopes.push (f w.scopes.push)) : K.Amounts w (Work.enclosed todo) (block w.scopes f) := by
  rw [Amounts, Work.enclosed, run_cons, step]
  change K.run { w with scopes := w.scopes.push } (todo ++ [.pop]) = _
  rw [run_append, h, block]
  cases hx : f w.scopes.push with
  | error e => rfl
  | ok s =>
    have hpop : s.pop = w.scopes := by
      rw [Scopes.pop, Scopes.pop?, (hf s hx).1]
      rfl
    change K.run { w with scopes := s } [.pop] = _
    rw [run_single, step]
    change K.run { w with scopes := s.pop } [] = _
    rw [run, hpop]
    rfl

lemma Amounts.of_visit {t : Tree} (h : (K.visit w t >>= K.run w) = x.map fun scopes => { w with scopes }) :
    K.Amounts w [.visit t] x := by
  rw [Amounts, run_single, step, ← h]
  cases K.visit w t <;> rfl

lemma visit_expect (w : Walk) (p : Nat) (kind : NameKind) (children : List Tree) :
    ((K.expect p w.scopes kind children).map (fun _ => []) >>= K.run w) =
      ((K.expect p w.scopes kind children).map fun _ => w.scopes).map fun scopes => { w with scopes } := by
  cases K.expect p w.scopes kind children with
  | error e => rfl
  | ok u => exact Amounts.nil w

lemma amounts_declareNames (w : Walk) (t : Tree) (kind : Option NameKind) :
    K.Amounts w [.declareNames t kind]
      (declareAll w.scopes ((kind.or w.declaration).getD .ordinary) t.annotations.declares) :=
  .of_step rfl

lemma amounts_declareParams (w : Walk) (t : Tree) :
    K.Amounts w [.declareParams t] (declareAll w.scopes .ordinary (t.annotations.params.getD [])) :=
  .of_step rfl

lemma amounts_declareLeaf (w : Walk) (t : Tree) :
    K.Amounts w [.declareLeaf t] (declare w.scopes .ordinary (K.leafName t)) :=
  .of_step rfl

lemma Amounts.declaration {kind : Option NameKind} (h : K.Amounts ⟨w.scopes, kind⟩ todo x) :
    K.Amounts w (.setDeclaration kind :: (todo ++ [.setDeclaration w.declaration])) x := by
  rw [Amounts, run_cons, step]
  change K.run ⟨w.scopes, kind⟩ (todo ++ [.setDeclaration w.declaration]) = _
  rw [run_append, h]
  cases x with
  | error e => rfl
  | ok s =>
    change K.run ⟨s, kind⟩ [.setDeclaration w.declaration] = _
    rw [run_single, step]
    exact Amounts.nil (K := K) ⟨s, w.declaration⟩

end Amounts

mutual

lemma amounts_visit (w : Walk) : ∀ t, K.Amounts w [.visit t] (K.evaluate w.declaration w.scopes t)
  | .leaf _ _ => by
    rw [evaluate]
    exact .of_step rfl
  | .node p span annotations children => by
    refine .of_visit ?_
    rw [evaluate, visit]
    cases K.vocabulary.role? p with
    | none => rfl
    | some role =>
      dsimp only
      cases role.use? with
      | some use => exact visit_expect w p use children
      | none =>
        dsimp only
        split
        · exact Amounts.nil w
        cases K.vocabulary.category? p with
        | none => rfl
        | some category =>
          dsimp only
          rw [plan.eq_def]
          cases category
          case functionDefinition => exact amounts_function w p children
          case compoundStatement =>
            exact Amounts.enclosed (amounts_visits { w with scopes := w.scopes.push } children)
              (K.surrounded_evaluateAll _ _ children)
          case iterationStatement =>
            dsimp only
            split
            · exact Amounts.enclosed (amounts_visits { w with scopes := w.scopes.push } children)
                (K.surrounded_evaluateAll _ _ children)
            · exact amounts_visits w children
          case declaration => exact Amounts.declaration (amounts_visits ⟨w.scopes, _⟩ children)
          case initDeclarator => exact amounts_initialized w p (.node p span annotations children) children
          case parameterDeclaration =>
            exact (amounts_visits w children).append fun s => amounts_declareNames { w with scopes := s } _ _
          case directDeclarator | directAbstractDeclarator => exact amounts_suffixes w children
          case enumerator => exact amounts_enumerator w p children
          all_goals exact amounts_visits w children

lemma amounts_function (w : Walk) (p : Nat) : ∀ ts, (planFunction p ts >>= K.run w) =
    (K.evaluateFunction p w.declaration w.scopes ts).map fun scopes => { w with scopes }
  | specifiers :: declarator :: body :: _ => by
    rw [evaluateFunction]
    refine (amounts_visit w specifiers).cons fun s => ?_
    refine (amounts_visit { w with scopes := s } declarator).cons fun s => ?_
    refine (amounts_declareNames { w with scopes := s } declarator _).cons fun s => ?_
    refine Amounts.enclosed (w := { w with scopes := s }) ?_ ?_
    · exact (amounts_declareParams { w with scopes := s.push } declarator).cons fun s =>
        amounts_items { w with scopes := s } body
    · exact (surrounded_declareAll _ _ _).bind fun s => K.surrounded_evaluateItems _ s body
  | [] | [_] | [_, _] => by
    rw [evaluateFunction]
    · rfl
    · exact nofun

lemma amounts_items (w : Walk) : ∀ t,
    K.Amounts w (Work.visits t.children) (K.evaluateItems w.declaration w.scopes t)
  | .leaf _ _ => by
    rw [evaluateItems]
    exact .nil w
  | .node _ _ _ items => by
    rw [evaluateItems]
    exact amounts_visits w items

lemma amounts_initialized (w : Walk) (p : Nat) (t : Tree) : ∀ ts, (planInitialized p t ts >>= K.run w) =
    (K.evaluateInitialized p w.declaration w.scopes t.annotations.declares ts).map fun scopes =>
      { w with scopes }
  | [] => by
    rw [evaluateInitialized]
    rfl
  | declarator :: rest => by
    rw [evaluateInitialized]
    exact (amounts_visit w declarator).cons fun s =>
      (amounts_declareNames { w with scopes := s } t none).cons fun s =>
        amounts_visits { w with scopes := s } rest

lemma amounts_enumerator (w : Walk) (p : Nat) : ∀ ts, (planEnumerator p ts >>= K.run w) =
    (K.evaluateEnumerator p w.declaration w.scopes ts).map fun scopes => { w with scopes }
  | [] => by
    rw [evaluateEnumerator]
    rfl
  | name :: rest => by
    rw [evaluateEnumerator]
    exact (amounts_visits w rest).append fun s => amounts_declareLeaf { w with scopes := s } name

lemma amounts_visits (w : Walk) : ∀ ts, K.Amounts w (Work.visits ts) (K.evaluateAll w.declaration w.scopes ts)
  | [] => by
    rw [evaluateAll]
    exact .nil w
  | t :: rest => by
    rw [evaluateAll]
    exact (amounts_visit w t).cons fun s => amounts_visits { w with scopes := s } rest

lemma amounts_suffixes (w : Walk) :
    ∀ ts, K.Amounts w (ts.flatMap K.suffixWork) (K.evaluateParts w.declaration w.scopes ts)
  | [] => by
    rw [evaluateParts]
    exact .nil w
  | t :: rest => by
    have ht : K.Amounts w (K.suffixWork t) (if K.isParameterList t then
        block w.scopes fun s => K.evaluate w.declaration s t else K.evaluate w.declaration w.scopes t) := by
      rw [suffixWork]
      split
      · exact .enclosed (amounts_visit { w with scopes := w.scopes.push } t) (K.surrounded_evaluate _ _ t)
      · exact amounts_visit w t
    rw [evaluateParts, List.flatMap_cons]
    exact ht.append fun s => amounts_suffixes { w with scopes := s } rest

end

variable {K}

lemma check_ok_iff {t : Tree} : K.check t = .ok () ↔ ∃ s, K.evaluate none {} t = .ok s := by
  have h := K.amounts_visit {} t
  rw [Amounts] at h
  rw [check, h]
  cases K.evaluate none {} t with
  | error e => exact ⟨nofun, nofun⟩
  | ok s => exact ⟨fun _ => ⟨s, rfl⟩, fun _ => rfl⟩

lemma check_error_iff {t : Tree} {e : Fault} : K.check t = .error e ↔ K.evaluate none {} t = .error e := by
  have h := K.amounts_visit {} t
  rw [Amounts] at h
  rw [check, h]
  cases K.evaluate none {} t with
  | error e' => exact ⟨fun he => congrArg _ (Except.error.inj he), fun he => congrArg _ (Except.error.inj he)⟩
  | ok s => exact ⟨nofun, nofun⟩

variable (K)

end Ramify.C.Checker
