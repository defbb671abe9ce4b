import Ramify.Search.Basic

/-! Depth-first search for all parses. A cell with several actions leaves a checkpoint; when
a path ends, by acceptance or by rejection, the search resumes the latest checkpoint with
its next alternative. -/

namespace Ramify.Search

variable {τ ν κ ε δ : Type}

structure Parser (τ ν κ ε δ : Type) where
  table : Table
  builder : Builder τ ν κ ε δ
  limits : Limits := {}
  traced : Bool := false

/-- The whole search between two steps. Candidates and events have the latest first. -/
structure State (ν κ ε δ : Type) where
  path : Path ν κ
  choice : Nat := 0
  checkpoints : List (Checkpoint ν κ) := []
  candidates : List ν := []
  /-- The farthest rejection so far; of two equally far the later. -/
  deepest : Option (Nat × ε) := none
  stats : Stats := {}
  store : δ
  events : List (Event ε) := []
deriving DecidableEq

inductive Verdict (ε : Type) where
  | proceed
  | backtrack (reason : Option ε)
  | stop (failure : Failure ε)
deriving DecidableEq

def depth : List (Checkpoint ν κ) → Nat
  | [] => 0
  | c :: _ => c.depth

def splitTop? {α : Type} : Nat → List α → List α → Option (List α × List α)
  | 0, taken, rest => some (taken, rest)
  | _ + 1, _, [] => none
  | n + 1, taken, a :: rest => splitTop? n (a :: taken) rest

namespace Parser

variable (P : Parser τ ν κ ε δ)

def note (S : State ν κ ε δ) (e : Event ε) : State ν κ ε δ :=
  if P.traced then { S with events := e :: S.events } else S

def save (S : State ν κ ε δ) (state alternatives : Nat) : State ν κ ε δ :=
  let d := depth S.checkpoints + 1
  P.note { S with
    checkpoints := ⟨S.path, S.choice, d⟩ :: S.checkpoints
    stats.checkpoints := S.stats.checkpoints + 1
    stats.maxDepth := max S.stats.maxDepth d } (.checkpoint S.path.position state alternatives d)

def shift (S : State ν κ ε δ) (token : τ) (last target : Nat) : State ν κ ε δ × Verdict ε :=
  let p := S.path
  if last ≤ p.position then (S, .backtrack (some (P.builder.syntaxError token last)))
  else
    match P.builder.shift S.store p.context token p.position with
    | (store, .error e) => ({ S with store }, .backtrack (some e))
    | (store, .ok (context, value)) =>
      let path := ⟨p.position + 1, target :: p.states, value :: p.values, context⟩
      let S := P.note S (.shift p.position ((P.builder.terminal token).getD 0) target)
      ({ S with path, store, stats.shifts := S.stats.shifts + 1 }, .proceed)

def reduce (S : State ν κ ε δ) (index : Nat) : State ν κ ε δ × Verdict ε :=
  let p := S.path
  match P.table.productions[index]? with
  | none => (S, .backtrack none)
  | some production =>
    let n := production.rhs.length
    match splitTop? n [] p.states, splitTop? n [] p.values with
    | some (_, exposed :: states), some (children, values) =>
      match P.table.goto? exposed production.lhs with
      | none => (S, .stop (.missingGoto exposed production.lhs))
      | some target =>
        match P.builder.reduce S.store p.context production children with
        | (store, .error .undefined) => ({ S with store }, .stop (.undefined index))
        | (store, .error (.reject e)) => ({ S with store }, .backtrack (some e))
        | (store, .ok (context, value)) =>
          let path := ⟨p.position, target :: exposed :: states, value :: values, context⟩
          let S := P.note S (.reduce p.position index target)
          ({ S with path, store, stats.reductions := S.stats.reductions + 1 }, .proceed)
    | _, _ => (S, .backtrack none)

def accept (S : State ν κ ε δ) : State ν κ ε δ × Verdict ε :=
  match S.path.values with
  | [] => (S, .backtrack none)
  | value :: _ =>
    let found := S.stats.accepts
    let S := P.note { S with
      candidates := value :: S.candidates
      stats.accepts := found + 1 } (.accept S.path.position found)
    if P.limits.maxCandidates < found + 1 then (S, .stop (.candidateLimit P.limits.maxCandidates))
    else (S, .backtrack none)

def step (tokens : Array τ) (S : State ν κ ε δ) : State ν κ ε δ × Verdict ε :=
  let last := tokens.size - 1
  let index := min S.path.position last
  match S.path.states, tokens[index]? with
  | state :: _, some token =>
    let actions := match P.builder.terminal token with
      | some t => P.table.actionsAt state t
      | none => []
    match actions.drop S.choice with
    | [] =>
      let reason := if actions.isEmpty then some (P.builder.syntaxError token index) else none
      (S, .backtrack reason)
    | action :: others =>
      let S := if others.isEmpty then S else P.save S state actions.length
      match action with
      | .shift target => P.shift S token last target
      | .reduce production => P.reduce S production
      | .accept => P.accept S
  | _, _ => (S, .backtrack none)

def reject (S : State ν κ ε δ) : Option ε → State ν κ ε δ
  | none => S
  | some e =>
    let here := S.path.position
    let farthest := S.deepest.all fun (p, _) => p ≤ here
    P.note { S with
      stats.rejections := S.stats.rejections + 1
      deepest := if farthest then some (here, e) else S.deepest } (.reject here e)

def resume? (S : State ν κ ε δ) : Option (State ν κ ε δ) :=
  match S.checkpoints with
  | [] => none
  | c :: checkpoints =>
    let choice := c.alternative + 1
    some (P.note { S with
      path := c.path
      choice
      checkpoints
      stats.backtracks := S.stats.backtracks + 1 }
      (.backtrack c.path.position choice (depth checkpoints)))

def run (tokens : Array τ) : Nat → State ν κ ε δ → State ν κ ε δ × Option (Failure ε)
  | 0, S =>
    ({ S with stats.steps := S.stats.steps + 1 }, some (.searchLimit P.limits.maxSteps))
  | fuel + 1, S =>
    match P.step tokens { S with stats.steps := S.stats.steps + 1 } with
    | (S, .proceed) => run tokens fuel { S with choice := 0 }
    | (S, .stop failure) => (S, some failure)
    | (S, .backtrack reason) =>
      let S := P.reject S reason
      match P.resume? S with
      | some S => run tokens fuel S
      | none => (S, none)

def conclude (tokens : Array τ) (S : State ν κ ε δ) : Except (Failure ε) (List ν) :=
  match S.candidates, S.deepest with
  | [], some (_, e) => .error (.noParse e)
  | [], none =>
    let last := tokens.size - 1
    match tokens[last]? with
    | some token => .error (.noParse (P.builder.syntaxError token last))
    | none => .error .emptyInput
  | found, _ => .ok found.reverse

def start (store : δ) : State ν κ ε δ where
  path := ⟨0, [0], [], P.builder.initial⟩
  store := store

end Parser

structure Parse (ν ε δ : Type) where
  result : Except (Failure ε) (List ν)
  stats : Stats
  store : δ
  events : List (Event ε) := []

/-- Parses tokens, the last of which marks the end. On empty input nothing happens, and the
counters given as `before` stay. -/
def Parser.parse (P : Parser τ ν κ ε δ) (before : Stats) (store : δ) (tokens : Array τ) :
    Parse ν ε δ :=
  if tokens.isEmpty then { result := .error .emptyInput, stats := before, store }
  else
    let (S, failure?) := P.run tokens P.limits.maxSteps (P.start store)
    let result := match failure? with
      | some failure => .error failure
      | none => P.conclude tokens S
    { result, stats := S.stats, store := S.store, events := S.events.reverse }

def Parse.records (p : Parse ν ε δ) : List Record :=
  let finished (n : Nat) : List Record :=
    [⟨.debug, s!"parse finished: {n} candidate(s), {p.stats.steps} steps, {p.stats.backtracks} backtracks"⟩]
  match p.result with
  | .ok candidates => finished candidates.length
  | .error (.noParse _) => finished 0
  | .error (.searchLimit steps) => [⟨.warn, s!"parse abandoned after {steps} steps"⟩]
  | .error _ => []

def Parse.eventTexts (errorText : ε → String) (p : Parse ν ε δ) : List String :=
  p.events.map (Event.text errorText)

def Parse.eventRecords (errorText : ε → String) (p : Parse ν ε δ) : List Record :=
  (p.eventTexts errorText).map fun e => ⟨.trace, e⟩

end Ramify.Search
