import Ramify.C.Error
import Ramify.C.Tree
import Ramify.Log

/-! The scope check of finished trees. Blocks, `for` statements and parameter lists are
scopes of their own; the parameters of a function and the items of its body share one. The
rules say nothing about a node that lacks a child they speak of. The walk keeps what it has
yet to do on a stack, so that trees may be of any depth. -/

namespace Ramify.C

structure Checker where
  vocabulary : Vocabulary
  tokens : Array Token

inductive Fault where
  | scope (error : ScopeError)
  | undefined (production : Nat)
deriving DecidableEq

namespace Checker

variable (K : Checker)

def leafName (t : Tree) : Declared :=
  let name := (t.token?.bind (K.tokens[·]?)).map Token.text
  ⟨name.getD "", t.token?, t.span⟩

def declare (s : Scopes) (kind : NameKind) (d : Declared) : Except Fault Scopes :=
  match s.declare d.name kind d.span with
  | .ok s => .ok s
  | .error _ => .error (.scope ⟨.redefinition, d.name, d.span⟩)

def declareAll (s : Scopes) (kind : NameKind) (names : List Declared) : Except Fault Scopes :=
  names.foldlM (fun s d => declare s kind d) s

def expect (p : Nat) (s : Scopes) (kind : NameKind) : List Tree → Except Fault Unit
  | [] => .error (.undefined p)
  | leaf :: _ =>
    let d := K.leafName leaf
    match s.lookup d.name with
    | none => .error (.scope ⟨.undeclaredIdentifier, d.name, d.span⟩)
    | some b =>
      if b.kind = kind then .ok () else .error (.scope ⟨.invalidSymbolKind, d.name, d.span⟩)

def isParameterList : Tree → Bool
  | .leaf _ _ => false
  | .node p _ _ _ => K.vocabulary.category p == .parameterTypeList

end Checker

inductive Work where
  | visit (t : Tree)
  | push
  | pop
  | declareNames (t : Tree) (kind : Option NameKind)
  | declareParams (t : Tree)
  | declareLeaf (t : Tree)
  | setDeclaration (kind : Option NameKind)

namespace Work

def visits (ts : List Tree) : List Work := ts.map visit

def enclosed (todo : List Work) : List Work := push :: (todo ++ [pop])

def weight : Work → Nat
  | visit t => 8 * t.size - 2
  | _ => 1

def weights : List Work → Nat
  | [] => 0
  | work :: todo => work.weight + weights todo

@[simp]
theorem weights_nil : weights [] = 0 := rfl

@[simp]
theorem weights_cons (work : Work) (todo : List Work) :
    weights (work :: todo) = work.weight + weights todo := rfl

@[simp]
theorem weights_append (todo others : List Work) :
    weights (todo ++ others) = weights todo + weights others := by
  induction todo with
  | nil => exact (Nat.zero_add _).symm
  | cons work todo ih => rw [List.cons_append, weights_cons, ih, weights_cons, Nat.add_assoc]

@[simp]
theorem weights_enclosed (todo : List Work) : weights (enclosed todo) = weights todo + 2 := by
  simp [enclosed, weight]
  omega

theorem weights_visits_le (ts : List Tree) : weights (visits ts) ≤ 8 * Tree.sizes ts := by
  induction ts with
  | nil => exact Nat.zero_le _
  | cons t ts ih =>
    rw [visits, List.map_cons, weights_cons, weight, Tree.sizes, ← visits]
    omega

end Work

structure Walk where
  scopes : Scopes := {}
  declaration : Option NameKind := none

namespace Checker

open Work (visits enclosed)

variable (K : Checker)

def suffixWork (t : Tree) : List Work := if K.isParameterList t then enclosed [.visit t] else [.visit t]

def planFunction (p : Nat) : List Tree → Except Fault (List Work)
  | specifiers :: declarator :: body :: _ =>
    .ok (.visit specifiers :: .visit declarator :: .declareNames declarator (some .ordinary) ::
      enclosed (.declareParams declarator :: visits body.children))
  | _ => .error (.undefined p)

def planInitialized (p : Nat) (t : Tree) : List Tree → Except Fault (List Work)
  | [] => .error (.undefined p)
  | declarator :: rest => .ok (.visit declarator :: .declareNames t none :: visits rest)

def planEnumerator (p : Nat) : List Tree → Except Fault (List Work)
  | [] => .error (.undefined p)
  | name :: rest => .ok (visits rest ++ [.declareLeaf name])

def plan (declaration : Option NameKind) (p : Nat) (role : Role) (t : Tree) :
    Category → Except Fault (List Work)
  | .functionDefinition => planFunction p t.children
  | .compoundStatement => .ok (enclosed (visits t.children))
  | .iterationStatement =>
    .ok (if role = .forLoop then enclosed (visits t.children) else visits t.children)
  | .declaration =>
    let kind := if t.annotations.typedef then .typedef else .ordinary
    .ok (.setDeclaration (some kind) :: (visits t.children ++ [.setDeclaration declaration]))
  | .initDeclarator => planInitialized p t t.children
  | .parameterDeclaration => .ok (visits t.children ++ [.declareNames t (some .ordinary)])
  | .directDeclarator | .directAbstractDeclarator => .ok (t.children.flatMap K.suffixWork)
  | .enumerator => planEnumerator p t.children
  | _ => .ok (visits t.children)

def visit (w : Walk) (t : Tree) : Except Fault (List Work) :=
  match t with
  | .leaf _ _ => .ok []
  | .node p _ _ children =>
    match K.vocabulary.role? p with
    | none => .error (.undefined p)
    | some role =>
      match role.use? with
      | some kind => (K.expect p w.scopes kind children).map fun _ => []
      | none =>
        if role = .declaratorName then .ok []
        else
          match K.vocabulary.category? p with
          | none => .error (.undefined p)
          | some category => K.plan w.declaration p role t category

def step (w : Walk) : Work → Except Fault (Walk × List Work)
  | .visit t => (K.visit w t).map (w, ·)
  | .push => .ok ({ w with scopes := w.scopes.push }, [])
  | .pop => .ok ({ w with scopes := w.scopes.pop }, [])
  | .declareNames t kind =>
    (declareAll w.scopes ((kind.or w.declaration).getD .ordinary) t.annotations.declares).map
      fun scopes => ({ w with scopes }, [])
  | .declareParams t =>
    (declareAll w.scopes .ordinary (t.annotations.params.getD [])).map fun scopes => ({ w with scopes }, [])
  | .declareLeaf t =>
    (declare w.scopes .ordinary (K.leafName t)).map fun scopes => ({ w with scopes }, [])
  | .setDeclaration kind => .ok ({ w with declaration := kind }, [])

theorem weights_suffixWork_le (ts : List Tree) :
    Work.weights (ts.flatMap K.suffixWork) ≤ 8 * Tree.sizes ts := by
  induction ts with
  | nil => exact Nat.zero_le _
  | cons t ts ih =>
    have hpos := t.size_pos
    have ht : Work.weights (K.suffixWork t) ≤ 8 * t.size := by
      rw [suffixWork]
      split
      all_goals
        simp only [Work.weights_enclosed, Work.weights_cons, Work.weights_nil, Work.weight]
        omega
    rw [List.flatMap_cons, Work.weights_append, Tree.sizes]
    omega

theorem weights_planFunction_le {p : Nat} {children : List Tree} {todo : List Work}
    (h : planFunction p children = .ok todo) : Work.weights todo ≤ 8 * Tree.sizes children + 4 := by
  rw [planFunction.eq_def] at h
  split at h <;> cases h
  rename_i specifiers declarator body rest
  have hbody : Tree.sizes body.children < body.size := by
    cases body <;> simp [Tree.size, Tree.children, Tree.sizes]
  have hitems := Work.weights_visits_le body.children
  simp only [Work.weights_cons, Work.weights_enclosed, Work.weight, Tree.sizes]
  omega

theorem weights_plan_le {declaration : Option NameKind} {p : Nat} {role : Role} {category : Category} {t : Tree}
    {todo : List Work} (h : K.plan declaration p role t category = .ok todo) :
    Work.weights todo ≤ 8 * Tree.sizes t.children + 4 := by
  have hvisits := Work.weights_visits_le
  rw [plan.eq_def] at h
  cases category <;> dsimp only at h
  case functionDefinition => exact weights_planFunction_le h
  case initDeclarator | enumerator =>
    cases ht : t.children with
    | nil =>
      rw [ht] at h
      cases h
    | cons child rest =>
      rw [ht] at h
      cases h
      have hrest := hvisits rest
      simp [Work.weight, Tree.sizes]
      omega
  case directDeclarator | directAbstractDeclarator =>
    cases h
    exact Nat.le_add_right_of_le (K.weights_suffixWork_le _)
  all_goals
    cases h
    have hchildren := hvisits t.children
    try split
    all_goals
      simp [Work.weight]
      omega

theorem weights_visit_lt {w : Walk} {t : Tree} {todo : List Work} (h : K.visit w t = .ok todo) :
    Work.weights todo < Work.weight (.visit t) := by
  cases t with
  | leaf token span =>
    cases h
    exact Nat.succ_pos _
  | node p span annotations children =>
    have hle : Work.weights todo ≤ 8 * Tree.sizes children + 4 := by
      simp only [visit] at h
      split at h
      · cases h
      · split at h
        · generalize K.expect p w.scopes _ children = found at h
          cases found <;> cases h
          exact Nat.zero_le _
        · split at h
          · cases h
            exact Nat.zero_le _
          · split at h
            · cases h
            · exact K.weights_plan_le h
    rw [Work.weight, Tree.size]
    omega

theorem weights_step_lt {w w' : Walk} {work : Work} {todo : List Work}
    (h : K.step w work = .ok (w', todo)) : Work.weights todo < work.weight := by
  have hmap : ∀ {x : Except Fault Scopes}, x.map (fun scopes => ({ w with scopes }, [])) = .ok (w', todo) →
      todo = [] := by
    intro x hx
    cases x <;> cases hx
    rfl
  cases work with
  | visit t =>
    cases hv : K.visit w t with
    | error e =>
      rw [step, hv] at h
      cases h
    | ok todo' =>
      rw [step, hv] at h
      cases h
      exact K.weights_visit_lt hv
  | push | pop | setDeclaration =>
    cases h
    exact Nat.one_pos
  | declareNames | declareParams | declareLeaf =>
    rw [hmap h]
    exact Nat.one_pos

def run (w : Walk) : List Work → Except Fault Walk
  | [] => .ok w
  | work :: rest =>
    match _h : K.step w work with
    | .error e => .error e
    | .ok (w, todo) => run w (todo ++ rest)
termination_by todo => Work.weights todo
decreasing_by
  have hlt := K.weights_step_lt _h
  simp only [Work.weights_append, Work.weights_cons]
  omega

def check (t : Tree) : Except Fault Unit := do
  let _ ← K.run {} [.visit t]

structure Sorted where
  survivors : List Tree := []
  rejected : List (Nat × ScopeError) := []

def sortFrom (first : Nat) : List Tree → Except Nat Sorted
  | [] => .ok {}
  | t :: rest =>
    match K.check t with
    | .ok _ => do
      let others ← sortFrom (first + 1) rest
      return { others with survivors := t :: others.survivors }
    | .error (.scope e) => do
      let others ← sortFrom (first + 1) rest
      return { others with rejected := (first, e) :: others.rejected }
    | .error (.undefined p) => .error p

def sort (forest : List Tree) : Except Nat Sorted := K.sortFrom 0 forest

def Sorted.records (s : Sorted) : List Record :=
  s.rejected.map (fun (i, e) => ⟨.debug, s!"candidate {i} rejected: {e.message}"⟩) ++
    [⟨.debug, s!"{s.survivors.length} candidate(s) survive, {s.rejected.length} rejected"⟩]

end Checker

end Ramify.C
