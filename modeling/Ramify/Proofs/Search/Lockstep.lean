import Ramify.Proofs.Search.Simulation

/-! Searches in lockstep. Where the moves of two searches correspond, whatever their tokens, values,
contexts and errors are, the searches take the same steps: they leave the same checkpoints, count the
same and come to corresponding ends. In particular a parser and its mirror report the same. -/

namespace Ramify.Search

/-- What corresponds in two searches: paths and values as the stores stand, and errors. -/
structure Likeness (ν κ ε δ ν' κ' ε' δ' : Type) where
  path : δ → δ' → Path ν κ → Path ν' κ' → Prop
  value : δ → δ' → ν → ν' → Prop
  error : ε → ε' → Prop

variable {τ τ' ν ν' κ κ' ε ε' δ δ' : Type}

inductive Failure.Alike (same : ε → ε' → Prop) : Failure ε → Failure ε' → Prop
  | noParse {e : ε} {e' : ε'} : same e e' → Alike same (.noParse e) (.noParse e')
  | searchLimit (steps : Nat) : Alike same (.searchLimit steps) (.searchLimit steps)
  | candidateLimit (limit : Nat) : Alike same (.candidateLimit limit) (.candidateLimit limit)
  | missingGoto (state nonterminal : Nat) : Alike same (.missingGoto state nonterminal) (.missingGoto state nonterminal)
  | undefined (production : Nat) : Alike same (.undefined production) (.undefined production)
  | emptyInput : Alike same .emptyInput .emptyInput

inductive Event.Alike (same : ε → ε' → Prop) : Event ε → Event ε' → Prop
  | shift (position terminal state : Nat) : Alike same (.shift position terminal state) (.shift position terminal state)
  | reduce (position production state : Nat) :
      Alike same (.reduce position production state) (.reduce position production state)
  | checkpoint (position state alternatives depth : Nat) :
      Alike same (.checkpoint position state alternatives depth) (.checkpoint position state alternatives depth)
  | backtrack (position alternative depth : Nat) :
      Alike same (.backtrack position alternative depth) (.backtrack position alternative depth)
  | reject (position : Nat) {e : ε} {e' : ε'} : same e e' → Alike same (.reject position e) (.reject position e')
  | accept (position candidate : Nat) : Alike same (.accept position candidate) (.accept position candidate)

inductive Verdict.Alike (same : ε → ε' → Prop) : Verdict ε → Verdict ε' → Prop
  | proceed : Alike same .proceed .proceed
  | backtrack {r : Option ε} {r' : Option ε'} : Option.Rel same r r' → Alike same (.backtrack r) (.backtrack r')
  | stop {f : Failure ε} {f' : Failure ε'} : f.Alike same f' → Alike same (.stop f) (.stop f')

lemma Failure.Alike.eq {f f' : Failure ε} (h : f.Alike Eq f') : f' = f := by
  cases h with
  | noParse he => rw [he]
  | _ => rfl

lemma Failure.Alike.refl {same : ε → ε → Prop} (hrefl : ∀ e, same e e) (f : Failure ε) : f.Alike same f := by
  cases f with
  | noParse e => exact .noParse (hrefl e)
  | _ => constructor

lemma Event.Alike.eq {e e' : Event ε} (h : e.Alike Eq e') : e' = e := by
  cases h with
  | reject _ he => rw [he]
  | _ => rfl

structure Checkpoint.Alike (same : Path ν κ → Path ν' κ' → Prop) (c : Checkpoint ν κ) (d : Checkpoint ν' κ') : Prop where
  path : same c.path d.path
  alternative_eq : d.alternative = c.alternative
  depth_eq : d.depth = c.depth

namespace Likeness

variable (L : Likeness ν κ ε δ ν' κ' ε' δ')

inductive Moves (s : δ) (s' : δ') : Move ν κ ε → Move ν' κ' ε' → Prop
  | next {p : Path ν κ} {q : Path ν' κ'} : L.path s s' p q → Moves s s' (.next p) (.next q)
  | accepted {v : ν} {v' : ν'} : L.value s s' v v' → Moves s s' (.accepted v) (.accepted v')
  | rejected {r : Option ε} {r' : Option ε'} : Option.Rel L.error r r' → Moves s s' (.rejected r) (.rejected r')
  | stop {f : Failure ε} {f' : Failure ε'} : f.Alike L.error f' → Moves s s' (.stop f) (.stop f')

structure Keeps (s : δ) (s' : δ') (made : δ × Move ν κ ε) (made' : δ' × Move ν' κ' ε') : Prop where
  moves : L.Moves made.1 made'.1 made.2 made'.2
  path : ∀ p q, L.path s s' p q → L.path made.1 made'.1 p q
  value : ∀ v v', L.value s s' v v' → L.value made.1 made'.1 v v'

structure States (S : State ν κ ε δ) (T : State ν' κ' ε' δ') : Prop where
  path : L.path S.store T.store S.path T.path
  choice_eq : T.choice = S.choice
  checkpoints : List.Forall₂ (Checkpoint.Alike (L.path S.store T.store)) S.checkpoints T.checkpoints
  candidates : List.Forall₂ (L.value S.store T.store) S.candidates T.candidates
  deepest : Option.Rel (fun d d' => d'.1 = d.1 ∧ L.error d.2 d'.2) S.deepest T.deepest
  stats_eq : T.stats = S.stats
  events : List.Forall₂ (Event.Alike L.error) S.events T.events

structure Steps (r : State ν κ ε δ × Verdict ε) (r' : State ν' κ' ε' δ' × Verdict ε') : Prop where
  states : L.States r.1 r'.1
  verdict : r.2.Alike L.error r'.2

structure Parses (p : Parse ν ε δ) (q : Parse ν' ε' δ') : Prop where
  result : (∃ f f', p.result = .error f ∧ q.result = .error f' ∧ f.Alike L.error f') ∨
    ∃ found found', p.result = .ok found ∧ q.result = .ok found' ∧ List.Forall₂ (L.value p.store q.store) found found'
  stats_eq : q.stats = p.stats
  events : List.Forall₂ (Event.Alike L.error) p.events q.events

variable {L} {S : State ν κ ε δ} {T : State ν' κ' ε' δ'}

lemma States.depth_eq (h : L.States S T) : depth T.checkpoints = depth S.checkpoints := by
  have hcheckpoints := h.checkpoints
  generalize S.checkpoints = cs at hcheckpoints
  generalize T.checkpoints = ds at hcheckpoints
  cases hcheckpoints with
  | nil => rfl
  | cons hc _ => exact hc.depth_eq

lemma States.counted (h : L.States S T) : L.States S.counted T.counted :=
  { h with stats_eq := by rw [State.counted, State.counted, h.stats_eq] }

end Likeness

def Stats.taking (stats : Stats) : Action → Stats
  | .shift _ => { stats with shifts := stats.shifts + 1 }
  | .reduce _ => { stats with reductions := stats.reductions + 1 }
  | .accept => stats

def Event.taken (position terminal : Nat) (target : Path ν κ) : Action → Event ε
  | .shift state => .shift position terminal state
  | .reduce production => .reduce position production (target.states.headD 0)
  | .accept => .accept position 0

namespace Parser

def settle (P : Parser τ ν κ ε δ) (S : State ν κ ε δ) (token : τ) (action : Action) (made : δ × Move ν κ ε) :
    State ν κ ε δ × Verdict ε :=
  match made.2 with
  | .next path =>
    (P.note { S with path, store := made.1, stats := S.stats.taking action }
      (.taken S.path.position ((P.builder.terminal token).getD 0) path action), .proceed)
  | .rejected reason => ({ S with store := made.1 }, .backtrack reason)
  | .stop failure => ({ S with store := made.1 }, .stop failure)
  | .accepted value =>
    (P.note { S with store := made.1, candidates := value :: S.candidates, stats.accepts := S.stats.accepts + 1 }
      (.accept S.path.position S.stats.accepts),
      if P.limits.maxCandidates < S.stats.accepts + 1 then .stop (.candidateLimit P.limits.maxCandidates)
      else .backtrack none)

section Settle

variable {P : Parser τ ν κ ε δ} (tokens : Array τ) (S : State ν κ ε δ) (token : τ)

lemma shift_eq_settle (target : Nat) : P.shift S token (tokens.size - 1) target =
    P.settle S token (.shift target) (P.move tokens S.store S.path token (.shift target)) := by
  rw [move, shiftMove, shift]
  dsimp only
  split
  · rfl
  · rcases P.builder.shift S.store S.path.context token S.path.position with ⟨store, e | ⟨context, value⟩⟩
    · rfl
    · dsimp only [Path.shifted, settle, Event.taken]
      rw [note, note]
      split <;> rfl

lemma reduce_eq_settle (index : Nat) : P.reduce S index =
    P.settle S token (.reduce index) (P.move tokens S.store S.path token (.reduce index)) := by
  rw [move, reduceMove, reduce]
  cases P.table.productions[index]? with
  | none => rfl
  | some production =>
    dsimp only
    rw [splitTop?_eq, splitTop?_eq]
    cases he : S.path.states[production.rhs.length]? with
    | none =>
      have hd : S.path.states.drop production.rhs.length = [] :=
        List.drop_eq_nil_of_le (List.getElem?_eq_none_iff.mp he)
      rw [hd]
      by_cases hs : production.rhs.length ≤ S.path.states.length
      · rw [if_pos hs]
        rfl
      · rw [if_neg hs]
        rfl
    | some exposed =>
      obtain ⟨hlt, rfl⟩ := List.getElem?_eq_some_iff.mp he
      have hd := List.drop_eq_getElem_cons hlt
      rw [if_pos (Nat.le_of_lt hlt), hd]
      by_cases hv : production.rhs.length ≤ S.path.values.length
      · rw [if_pos hv]
        dsimp only
        rw [if_neg (Nat.not_lt.mpr hv), List.append_nil]
        cases P.table.goto? S.path.states[production.rhs.length] production.lhs with
        | none => rfl
        | some target =>
          dsimp only
          rcases P.builder.reduce S.store S.path.context production
            (S.path.values.take production.rhs.length).reverse with ⟨store, (e | _) | ⟨context, value⟩⟩
          · rfl
          · rfl
          · dsimp only [Path.reduced, settle, Event.taken, List.headD_cons]
            rw [note, note, ← hd]
            split <;> rfl
      · rw [if_neg hv]
        dsimp only
        rw [if_pos (Nat.not_le.mp hv)]
        rfl

lemma accept_eq_settle : P.accept S = P.settle S token .accept (P.move tokens S.store S.path token .accept) := by
  rw [move, accept]
  cases S.path.values with
  | nil => rfl
  | cons value values =>
    dsimp only [settle]
    split <;> rfl

lemma act_eq_settle (action : Action) : P.act S token (tokens.size - 1) action =
    P.settle S token action (P.move tokens S.store S.path token action) := by
  cases action with
  | shift target => exact shift_eq_settle tokens S token target
  | reduce index => exact reduce_eq_settle tokens S token index
  | accept => exact accept_eq_settle tokens S token

end Settle

structure Paces (P : Parser τ ν κ ε δ) (Q : Parser τ' ν' κ' ε' δ') (L : Likeness ν κ ε δ ν' κ' ε' δ')
    (tokens : Array τ) (tokens' : Array τ') : Prop where
  table_eq : Q.table = P.table
  limits_eq : Q.limits = P.limits
  traced_eq : Q.traced = P.traced
  size_eq : tokens'.size = tokens.size
  terminal_eq : ∀ {i : Nat} {token : τ} {token' : τ'}, tokens[i]? = some token → tokens'[i]? = some token' →
    Q.builder.terminal token' = P.builder.terminal token
  syntaxError : ∀ {i : Nat} {token : τ} {token' : τ'}, tokens[i]? = some token → tokens'[i]? = some token' →
    ∀ n, L.error (P.builder.syntaxError token n) (Q.builder.syntaxError token' n)
  position_eq : ∀ {s : δ} {s' : δ'} {p : Path ν κ} {q : Path ν' κ'}, L.path s s' p q → q.position = p.position
  states_eq : ∀ {s : δ} {s' : δ'} {p : Path ν κ} {q : Path ν' κ'}, L.path s s' p q → q.states = p.states
  move : ∀ {s : δ} {s' : δ'} {p : Path ν κ} {q : Path ν' κ'} {token : τ} {token' : τ'} {actions : List Action},
    L.path s s' p q → P.cell tokens p = some (token, actions) → Q.cell tokens' q = some (token', actions) →
      ∀ action ∈ actions, L.Keeps s s' (P.move tokens s p token action) (Q.move tokens' s' q token' action)

namespace Paces

variable {P : Parser τ ν κ ε δ} {Q : Parser τ' ν' κ' ε' δ'} {L : Likeness ν κ ε δ ν' κ' ε' δ'}
  {tokens : Array τ} {tokens' : Array τ'} {S : State ν κ ε δ} {T : State ν' κ' ε' δ'} {token : τ} {token' : τ'}
  (h : P.Paces Q L tokens tokens')

include h

lemma note (hS : L.States S T) {e : Event ε} {e' : Event ε'} (he : e.Alike L.error e') :
    L.States (P.note S e) (Q.note T e') := by
  rw [Parser.note, Parser.note, h.traced_eq]
  split
  · exact { hS with events := .cons he hS.events }
  · exact hS

lemma save (hS : L.States S T) (state alternatives : Nat) :
    L.States (P.save S state alternatives) (Q.save T state alternatives) := by
  rw [Parser.save, Parser.save]
  dsimp only
  rw [hS.depth_eq, hS.stats_eq, h.position_eq hS.path]
  refine h.note ?_ (.checkpoint _ _ _ _)
  exact { hS with
    checkpoints := .cons ⟨hS.path, hS.choice_eq, rfl⟩ hS.checkpoints
    stats_eq := rfl }

lemma settle (hS : L.States S T) (hterminal : Q.builder.terminal token' = P.builder.terminal token) (action : Action)
    {made : δ × Move ν κ ε} {made' : δ' × Move ν' κ' ε'} (hmade : L.Keeps S.store T.store made made') :
    L.Steps (P.settle S token action made) (Q.settle T token' action made') := by
  obtain ⟨hmoves, hpath, hvalue⟩ := hmade
  obtain ⟨s, m⟩ := made
  obtain ⟨s', m'⟩ := made'
  dsimp only at hmoves hpath hvalue
  have hcheckpoints : List.Forall₂ (Checkpoint.Alike (L.path s s')) S.checkpoints T.checkpoints :=
    hS.checkpoints.imp fun {_ _} hc => { hc with path := hpath _ _ hc.path }
  have hcandidates : List.Forall₂ (L.value s s') S.candidates T.candidates :=
    hS.candidates.imp fun {_ _} hv => hvalue _ _ hv
  cases hmoves with
  | @next p q hp =>
    have hevent : (Event.taken S.path.position ((P.builder.terminal token).getD 0) p action).Alike L.error
        (Event.taken T.path.position ((Q.builder.terminal token').getD 0) q action) := by
      rw [hterminal, h.position_eq hS.path, Event.taken.eq_def, Event.taken.eq_def, h.states_eq hp]
      cases action with
      | shift state => exact .shift _ _ _
      | reduce production => exact .reduce _ _ _
      | accept => exact .accept _ _
    refine ⟨h.note ?_ hevent, .proceed⟩
    exact { hS with
      path := hp
      checkpoints := hcheckpoints
      candidates := hcandidates
      stats_eq := by rw [hS.stats_eq] }
  | @accepted v v' hv =>
    have hevent : (Event.accept S.path.position S.stats.accepts).Alike L.error
        (Event.accept T.path.position T.stats.accepts) := by
      rw [h.position_eq hS.path, hS.stats_eq]
      exact .accept _ _
    refine ⟨h.note ?_ hevent, ?_⟩
    · exact { hS with
        path := hpath _ _ hS.path
        checkpoints := hcheckpoints
        candidates := .cons hv hcandidates
        stats_eq := by rw [hS.stats_eq] }
    · dsimp only [Parser.settle]
      rw [h.limits_eq, hS.stats_eq]
      split
      · exact .stop (.candidateLimit _)
      · exact .backtrack .none
  | rejected hr =>
    exact ⟨{ hS with path := hpath _ _ hS.path, checkpoints := hcheckpoints, candidates := hcandidates }, .backtrack hr⟩
  | stop hf =>
    exact ⟨{ hS with path := hpath _ _ hS.path, checkpoints := hcheckpoints, candidates := hcandidates }, .stop hf⟩

lemma exists_token {i : Nat} (ht : tokens[i]? = some token) : ∃ token', tokens'[i]? = some token' :=
  ⟨_, Array.getElem?_eq_getElem (h.size_eq ▸ (Array.getElem?_eq_some_iff.mp ht).1)⟩

lemma options_eq {i : Nat} (ht : tokens[i]? = some token) (ht' : tokens'[i]? = some token') (state : Nat) :
    Q.options state token' = P.options state token := by
  rw [options, options, h.terminal_eq ht ht', h.table_eq]

lemma step (hS : L.States S T) : L.Steps (P.step tokens S) (Q.step tokens' T) := by
  have hstates := h.states_eq hS.path
  have hposition := h.position_eq hS.path
  cases hs : S.path.states with
  | nil =>
    rw [Parser.step, Parser.step, hstates, hs]
    exact ⟨hS, .backtrack .none⟩
  | cons state states =>
    have hsize : min T.path.position (tokens'.size - 1) = min S.path.position (tokens.size - 1) := by
      rw [hposition, h.size_eq]
    cases ht : tokens[min S.path.position (tokens.size - 1)]? with
    | none =>
      have ht' : tokens'[min S.path.position (tokens.size - 1)]? = none := by
        rw [Array.getElem?_eq_none_iff] at ht ⊢
        rwa [h.size_eq]
      rw [Parser.step, Parser.step, hstates, hsize, hs, ht, ht']
      exact ⟨hS, .backtrack .none⟩
    | some token =>
      obtain ⟨token', ht'⟩ := h.exists_token ht
      have hoptions := h.options_eq ht ht' state
      have hcell : P.cell tokens S.path = some (token, P.options state token) := by rw [cell, hs, ht]
      have hcell' : Q.cell tokens' T.path = some (token', P.options state token) := by
        rw [cell, hstates, hs, hsize, ht', ← hoptions]
      rw [step_eq hs ht, step_eq (hstates.trans hs) (hsize ▸ ht'), hoptions, hS.choice_eq]
      cases hd : (P.options state token).drop S.choice with
      | nil =>
        refine ⟨hS, .backtrack ?_⟩
        split
        · rw [cellError, cellError, hsize]
          exact .some (h.syntaxError ht ht' _)
        · exact .none
      | cons action others =>
        dsimp only
        have hsave : L.States (if others.isEmpty then S else P.save S state (P.options state token).length)
            (if others.isEmpty then T else Q.save T state (P.options state token).length) := by
          split
          · exact hS
          · exact h.save hS state _
        have hpath : (if others.isEmpty then S else P.save S state (P.options state token).length).path = S.path :=
          congrArg Core.path (save_mark S state _ others)
        have hpath' : (if others.isEmpty then T else Q.save T state (P.options state token).length).path = T.path :=
          congrArg Core.path (save_mark T state _ others)
        rw [act_eq_settle, act_eq_settle]
        refine h.settle hsave (h.terminal_eq ht ht') action ?_
        refine h.move hsave.path ?_ ?_ action (mem_of_drop hd)
        · rwa [hpath]
        · rwa [hpath']

lemma reject (hS : L.States S T) {reason : Option ε} {reason' : Option ε'} (hr : Option.Rel L.error reason reason') :
    L.States (P.reject S reason) (Q.reject T reason') := by
  cases hr with
  | none => exact hS
  | @some e e' he =>
    have hfarthest (n : Nat) : T.deepest.all (fun d => d.1 ≤ n) = S.deepest.all fun d => d.1 ≤ n := by
      have hdeepest := hS.deepest
      generalize S.deepest = d at hdeepest
      generalize T.deepest = d' at hdeepest
      cases hdeepest with
      | none => rfl
      | some hd => simp [hd.1]
    rw [Parser.reject, Parser.reject, h.position_eq hS.path]
    dsimp only
    refine h.note ?_ (.reject _ he)
    exact { hS with
      deepest := by
        change Option.Rel _ (if S.deepest.all fun d => d.1 ≤ S.path.position then _ else _)
          (if T.deepest.all fun d => d.1 ≤ S.path.position then _ else _)
        rw [hfarthest]
        split
        · exact .some ⟨rfl, he⟩
        · exact hS.deepest
      stats_eq := by rw [hS.stats_eq] }

lemma resume (hS : L.States S T) : P.resume? S = none ∧ Q.resume? T = none ∨
    ∃ S' T', P.resume? S = some S' ∧ Q.resume? T = some T' ∧ L.States S' T' := by
  have hcheckpoints := hS.checkpoints
  rw [resume?, resume?]
  cases hc : S.checkpoints with
  | nil =>
    rw [hc, List.forall₂_nil_left_iff] at hcheckpoints
    rw [hcheckpoints]
    exact Or.inl ⟨rfl, rfl⟩
  | cons c cs =>
    rw [hc, List.forall₂_cons_left_iff] at hcheckpoints
    obtain ⟨d, ds, hd, hds, hc'⟩ := hcheckpoints
    rw [hc']
    refine Or.inr ⟨_, _, rfl, rfl, ?_⟩
    have hback : L.States { S with path := c.path, choice := c.alternative + 1, checkpoints := cs }
        { T with path := d.path, choice := d.alternative + 1, checkpoints := ds } :=
      { hS with
        path := hd.path
        choice_eq := by rw [hd.alternative_eq]
        checkpoints := hds }
    have hdepth := hback.depth_eq
    dsimp only at hdepth
    rw [h.position_eq hd.path, hd.alternative_eq, hdepth, hS.stats_eq]
    refine h.note ?_ (.backtrack _ _ _)
    exact { hback with
      choice_eq := rfl
      stats_eq := rfl }

lemma conclude (hS : L.States S T) :
    (∃ f f', P.conclude tokens S = .error f ∧ Q.conclude tokens' T = .error f' ∧ f.Alike L.error f') ∨
      ∃ found found', P.conclude tokens S = .ok found ∧ Q.conclude tokens' T = .ok found' ∧
        List.Forall₂ (L.value S.store T.store) found found' := by
  have hcandidates := hS.candidates
  have hdeepest := hS.deepest
  rw [Parser.conclude, Parser.conclude, h.size_eq]
  cases hc : S.candidates with
  | nil =>
    rw [hc, List.forall₂_nil_left_iff] at hcandidates
    rw [hcandidates]
    generalize S.deepest = d at hdeepest
    generalize T.deepest = d' at hdeepest
    cases hdeepest with
    | some hd => exact Or.inl ⟨_, _, rfl, rfl, .noParse hd.2⟩
    | none =>
      cases ht : tokens[tokens.size - 1]? with
      | some token =>
        obtain ⟨token', ht'⟩ := h.exists_token ht
        exact Or.inl ⟨.noParse (P.builder.syntaxError token (tokens.size - 1)),
          .noParse (Q.builder.syntaxError token' (tokens.size - 1)), by simp [ht], by simp [ht'],
          .noParse (h.syntaxError ht ht' _)⟩
      | none =>
        have ht' : tokens'[tokens.size - 1]? = none := by
          rw [Array.getElem?_eq_none_iff] at ht ⊢
          rwa [h.size_eq]
        exact Or.inl ⟨.emptyInput, .emptyInput, by simp [ht], by simp [ht'], .emptyInput⟩
  | cons v vs =>
    rw [hc] at hcandidates
    obtain ⟨v', vs', _, _, hc'⟩ := List.forall₂_cons_left_iff.mp hcandidates
    rw [hc'] at hcandidates ⊢
    exact Or.inr ⟨_, _, rfl, rfl, List.forall₂_reverse_iff.mpr hcandidates⟩

lemma run (fuel : Nat) (hS : L.States S T) : L.States (P.run tokens fuel S).1 (Q.run tokens' fuel T).1 ∧
    Option.Rel (Failure.Alike L.error) (P.run tokens fuel S).2 (Q.run tokens' fuel T).2 := by
  induction fuel generalizing S T with
  | zero =>
    rw [Parser.run, Parser.run, h.limits_eq]
    exact ⟨hS.counted, .some (.searchLimit _)⟩
  | succ fuel ih =>
    have hstep := h.step hS.counted
    rw [run_succ, run_succ]
    generalize P.step tokens S.counted = r at hstep
    generalize Q.step tokens' T.counted = r' at hstep
    obtain ⟨S', v⟩ := r
    obtain ⟨T', v'⟩ := r'
    obtain ⟨hstates, hverdict⟩ := hstep
    cases hverdict with
    | proceed => exact ih { hstates with choice_eq := rfl }
    | stop hf => exact ⟨hstates, .some hf⟩
    | backtrack hr =>
      have hreject := h.reject hstates hr
      dsimp only
      rcases h.resume hreject with ⟨hnone, hnone'⟩ | ⟨S'', T'', hsome, hsome', hresume⟩
      · rw [hnone, hnone']
        exact ⟨hreject, .none⟩
      · rw [hsome, hsome']
        exact ih hresume

theorem parse (before : Stats) {store : δ} {store' : δ'}
    (hstart : L.path store store' (P.start store).path (Q.start store').path) :
    L.Parses (P.parse before store tokens) (Q.parse before store' tokens') := by
  have hempty : tokens'.isEmpty = tokens.isEmpty := by simp only [Array.isEmpty, h.size_eq]
  have hstates : L.States (P.start store) (Q.start store') := ⟨hstart, rfl, .nil, .nil, .none, rfl, .nil⟩
  obtain ⟨hend, hfailure⟩ := h.run P.limits.maxSteps hstates
  rw [Parser.parse, Parser.parse, h.limits_eq, hempty]
  split
  · exact ⟨Or.inl ⟨_, _, rfl, rfl, .emptyInput⟩, rfl, .nil⟩
  · generalize P.run tokens P.limits.maxSteps (P.start store) = r at hend hfailure
    generalize Q.run tokens' P.limits.maxSteps (Q.start store') = r' at hend hfailure
    obtain ⟨S, end₁⟩ := r
    obtain ⟨T, end₂⟩ := r'
    refine ⟨?_, hend.stats_eq, List.forall₂_reverse_iff.mpr hend.events⟩
    cases hfailure with
    | some hf => exact Or.inl ⟨_, _, rfl, rfl, hf⟩
    | none => exact h.conclude hend

end Paces

structure Follows (Q : Parser τ ν' κ ε Unit) (P : Parser τ ν κ ε δ) (View : δ → ν → ν' → Prop) : Prop
    extends Q.Mirrors P View where
  limits_eq : Q.limits = P.limits
  traced_eq : Q.traced = P.traced

end Parser

def Likeness.ofView (View : δ → ν → ν' → Prop) : Likeness ν κ ε δ ν' κ ε Unit where
  path store _ p q := p.Views (View store) q
  value store _ := View store
  error := Eq

structure Parse.Views (View : δ → ν → ν' → Prop) (p : Parse ν ε δ) (q : Parse ν' ε Unit) : Prop where
  result : (∃ failure, p.result = .error failure ∧ q.result = .error failure) ∨
    ∃ found found', p.result = .ok found ∧ q.result = .ok found' ∧ List.Forall₂ (View p.store) found found'
  stats_eq : q.stats = p.stats
  events_eq : q.events = p.events

namespace Parser

variable {P : Parser τ ν κ ε δ} {Q : Parser τ ν' κ ε Unit} {View : δ → ν → ν' → Prop}

lemma Follows.paces (h : Q.Follows P View) (tokens : Array τ) : P.Paces Q (.ofView View) tokens tokens where
  table_eq := h.table_eq
  limits_eq := h.limits_eq
  traced_eq := h.traced_eq
  size_eq := rfl
  terminal_eq ht ht' := by
    obtain rfl := Option.some.inj (ht.symm.trans ht')
    rw [h.builder.terminal_eq]
  syntaxError ht ht' n := by
    obtain rfl := Option.some.inj (ht.symm.trans ht')
    rw [h.builder.syntaxError_eq]
    rfl
  position_eq hp := hp.position_eq
  states_eq hp := hp.states_eq
  move := by
    intro s _ p q token token' actions hp hc hc' action _
    obtain ⟨rfl, -⟩ := Prod.mk.inj (Option.some.inj (hc'.symm.trans ((h.cell_eq hp).trans hc)))
    have hmono : ∀ v v', View s v v' → View (P.move tokens s p token' action).1 v v' :=
      fun _ _ hv => h.move_view token' action hv
    have hmove := h.toMirrors.move tokens hp token' action
    refine ⟨?_, fun p q hpq => hpq.mono hmono, hmono⟩
    revert hmove
    generalize (P.move tokens s p token' action).2 = m
    generalize (Q.move tokens () q token' action).2 = m'
    rintro (hp' | hv | reason | failure)
    · exact .next hp'
    · exact .accepted hv
    · cases reason with
      | none => exact .rejected .none
      | some e => exact .rejected (.some rfl)
    · exact .stop (.refl (fun _ => rfl) failure)

variable {tokens : Array τ}

theorem Follows.parse (h : Q.Follows P View) (before : Stats) (store : δ) :
    (P.parse before store tokens).Views View (Q.parse before () tokens) := by
  have hstart : (P.start store).path.Views (View store) (Q.start ()).path := ⟨rfl, rfl, h.builder.initial_eq, .nil⟩
  obtain ⟨hresult, hstats, hevents⟩ := (h.paces tokens).parse before hstart
  refine ⟨?_, hstats, ?_⟩
  · rcases hresult with ⟨f, f', hp, hq, hf⟩ | hfound
    · exact Or.inl ⟨f, hp, hq.trans (congrArg _ hf.eq)⟩
    · exact Or.inr hfound
  · rw [← List.forall₂_eq_eq_eq]
    exact (hevents.imp fun {_ _} he => he.eq.symm).flip.imp fun {_ _} he => he.symm

end Parser

end Ramify.Search
