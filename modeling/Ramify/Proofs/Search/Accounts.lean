import Ramify.Proofs.Search.Lockstep
import Ramify.Proofs.Search.Tallies
import Ramify.Proofs.Search.InBounds
import Ramify.Proofs.LR.GeneratedTables
import Ramify.Proofs.Parse.Acceptance

/-! The accounts of a search. Every event is counted when it is noted, and the counters balance: a
checkpoint is open or was returned to, a step shifts, reduces or ends a path, and a path that ends has
been accepted or rejected, unless it was lost. With a constructed table no path is lost. -/

namespace Ramify.Search

variable {τ ν κ ε δ : Type}

inductive Tick where
  | shift | reduce | checkpoint | backtrack | reject | accept
deriving DecidableEq

def Event.tick : Event ε → Tick
  | .shift _ _ _ => .shift
  | .reduce _ _ _ => .reduce
  | .checkpoint _ _ _ _ => .checkpoint
  | .backtrack _ _ _ => .backtrack
  | .reject _ _ => .reject
  | .accept _ _ => .accept

namespace Stats

def ticks (s : Stats) : Tick → Nat
  | .shift => s.shifts
  | .reduce => s.reductions
  | .checkpoint => s.checkpoints
  | .backtrack => s.backtracks
  | .reject => s.rejections
  | .accept => s.accepts

def tick (s : Stats) : Tick → Stats
  | .shift => { s with shifts := s.shifts + 1 }
  | .reduce => { s with reductions := s.reductions + 1 }
  | .checkpoint => { s with checkpoints := s.checkpoints + 1 }
  | .backtrack => { s with backtracks := s.backtracks + 1 }
  | .reject => { s with rejections := s.rejections + 1 }
  | .accept => { s with accepts := s.accepts + 1 }

lemma ticks_tick (s : Stats) (k k' : Tick) : (s.tick k).ticks k' = s.ticks k' + if k = k' then 1 else 0 := by
  cases k <;> cases k' <;> rfl

end Stats

/-- The counters of a search, and what there is to count: the depths of the open checkpoints, the
candidates, and the kinds of the events that were kept. -/
structure Ledger where
  stats : Stats
  depths : List Nat
  found : Nat
  noted : List Tick

def State.ledger (S : State ν κ ε δ) : Ledger where
  stats := S.stats
  depths := S.checkpoints.map Checkpoint.depth
  found := S.candidates.length
  noted := S.events.map Event.tick

def Descends : List Nat → Prop
  | [] => True
  | d :: depths => d = depths.length + 1 ∧ Descends depths

namespace Ledger

def noting (traced : Bool) (k : Tick) (A : Ledger) : Ledger :=
  if traced then { A with noted := k :: A.noted } else A

def post (traced : Bool) (k : Tick) (A : Ledger) : Ledger := { A with stats := A.stats.tick k }.noting traced k

def opened (traced : Bool) (A : Ledger) : Ledger :=
  { A with
    depths := (A.depths.headD 0 + 1) :: A.depths
    stats.maxDepth := max A.stats.maxDepth (A.depths.headD 0 + 1) }.post traced .checkpoint

def Opens (traced : Bool) (A B : Ledger) : Prop := B = A ∨ B = A.opened traced

inductive Posts (traced : Bool) (A : Ledger) : Ledger → Verdict ε → Prop
  | shifted : Posts traced A (A.post traced .shift) .proceed
  | reduced : Posts traced A (A.post traced .reduce) .proceed
  | ended {reason : Option ε} : Posts traced A A (.backtrack reason)
  | accepted : Posts traced A ({ A with found := A.found + 1 }.post traced .accept) (.backtrack none)
  | overfull {limit : Nat} :
      Posts traced A ({ A with found := A.found + 1 }.post traced .accept) (.stop (.candidateLimit limit))
  | failed {failure : Failure ε} : Posts traced A A (.stop failure)

structure Balanced (traced : Bool) (A : Ledger) : Prop where
  noted : traced = true → ∀ k, A.noted.count k = A.stats.ticks k
  checkpoints_eq : A.stats.checkpoints = A.stats.backtracks + A.depths.length
  descends : Descends A.depths
  maxDepth_le : A.stats.maxDepth ≤ A.stats.checkpoints
  accepts_eq : A.stats.accepts = A.found

structure Settled (exact : Prop) (m n : Nat) (A : Ledger) : Prop where
  steps_eq : A.stats.steps = A.stats.shifts + A.stats.reductions + A.stats.backtracks + m
  ends_le : A.stats.rejections + A.stats.accepts ≤ A.stats.backtracks + n
  ends_eq : exact → A.stats.rejections + A.stats.accepts = A.stats.backtracks + n

variable {traced : Bool} {exact : Prop} {A B : Ledger} {k : Tick} {m n : Nat}

@[simp]
lemma post_stats : (A.post traced k).stats = A.stats.tick k := by
  rw [post, noting]
  split <;> rfl

@[simp]
lemma post_depths : (A.post traced k).depths = A.depths := by
  rw [post, noting]
  split <;> rfl

@[simp]
lemma post_found : (A.post traced k).found = A.found := by
  rw [post, noting]
  split <;> rfl

lemma Opens.steps_eq (h : Opens traced A B) : B.stats.steps = A.stats.steps := by
  rcases h with rfl | rfl
  · rfl
  · rw [opened, post_stats]
    rfl

lemma Opens.accepts_eq (h : Opens traced A B) : B.stats.accepts = A.stats.accepts := by
  rcases h with rfl | rfl
  · rfl
  · rw [opened, post_stats]
    rfl

lemma Opens.found_eq (h : Opens traced A B) : B.found = A.found := by
  rcases h with rfl | rfl
  · rfl
  · exact post_found

lemma Posts.backtrack {reason : Option ε} (h : Posts traced A B (.backtrack reason)) : B = A ∨
    reason = none ∧ B.stats.accepts = A.stats.accepts + 1 := by
  cases h with
  | ended => exact Or.inl rfl
  | accepted => exact Or.inr ⟨rfl, congrArg Stats.accepts post_stats⟩

lemma post_noted (h : traced = true → ∀ k, A.noted.count k = A.stats.ticks k) (ht : traced = true) (k' : Tick) :
    (A.post traced k).noted.count k' = (A.post traced k).stats.ticks k' := by
  rw [post_stats, Stats.ticks_tick, ← h ht k', post, noting, if_pos ht, List.count_cons]
  simp

lemma headD_of_descends {depths : List Nat} (h : Descends depths) : depths.headD 0 = depths.length := by
  cases depths with
  | nil => rfl
  | cons d depths => exact h.1

lemma Balanced.opened (h : A.Balanced traced) : (A.opened traced).Balanced traced := by
  have hhead := headD_of_descends h.descends
  have hopen := h.checkpoints_eq
  have hmax := h.maxDepth_le
  refine ⟨post_noted h.noted, ?_, ?_, ?_, ?_⟩
  · simp only [Ledger.opened, post_stats, post_depths, Stats.tick, List.length_cons]
    omega
  · simp only [Ledger.opened, post_depths]
    exact ⟨congrArg (· + 1) hhead, h.descends⟩
  · simp only [Ledger.opened, post_stats, Stats.tick]
    omega
  · simp only [Ledger.opened, post_stats, post_found, Stats.tick]
    exact h.accepts_eq

lemma Balanced.opens (h : A.Balanced traced) (hA : Opens traced A B) : B.Balanced traced := by
  rcases hA with rfl | rfl
  · exact h
  · exact h.opened

lemma Balanced.accepted (h : A.Balanced traced) :
    ({ A with found := A.found + 1 }.post traced .accept).Balanced traced := by
  refine ⟨post_noted h.noted, ?_, ?_, ?_, ?_⟩
  · simpa [Stats.tick] using h.checkpoints_eq
  · simpa using h.descends
  · simpa [Stats.tick] using h.maxDepth_le
  · simpa [Stats.tick] using h.accepts_eq

lemma Balanced.post (h : A.Balanced traced) (hk : k = .shift ∨ k = .reduce ∨ k = .reject) :
    (A.post traced k).Balanced traced := by
  refine ⟨post_noted h.noted, ?_, by simpa using h.descends, ?_, ?_⟩
  · rcases hk with rfl | rfl | rfl <;> simpa [Stats.tick] using h.checkpoints_eq
  · rcases hk with rfl | rfl | rfl <;> simpa [Stats.tick] using h.maxDepth_le
  · rcases hk with rfl | rfl | rfl <;> simpa [Stats.tick] using h.accepts_eq

lemma Balanced.posts {v : Verdict ε} (h : A.Balanced traced) (hp : Posts traced A B v) : B.Balanced traced := by
  cases hp with
  | shifted => exact h.post (Or.inl rfl)
  | reduced => exact h.post (Or.inr (Or.inl rfl))
  | ended => exact h
  | accepted => exact h.accepted
  | overfull => exact h.accepted
  | failed => exact h

lemma Balanced.returned {d : Nat} {depths : List Nat} (h : A.Balanced traced) (hd : A.depths = d :: depths) :
    ({ A with depths }.post traced .backtrack).Balanced traced := by
  have hopen := h.checkpoints_eq
  have hdescends := h.descends
  rw [hd] at hopen hdescends
  refine ⟨post_noted h.noted, ?_, ?_, ?_, ?_⟩
  · simp only [post_stats, post_depths, Stats.tick]
    rw [hopen, List.length_cons]
    omega
  · simpa using hdescends.2
  · simpa [Stats.tick] using h.maxDepth_le
  · simpa [Stats.tick] using h.accepts_eq

lemma Settled.opens (h : A.Settled exact m n) (hA : Opens traced A B) : B.Settled exact m n := by
  obtain ⟨hsteps, hle, heq⟩ := h
  rcases hA with rfl | rfl
  · exact ⟨hsteps, hle, heq⟩
  · constructor
    all_goals simpa [Ledger.opened, Stats.tick]

lemma Settled.proceed (h : A.Settled exact (m + 1) n) (hp : Posts traced A B (.proceed : Verdict ε)) : B.Settled exact m n := by
  obtain ⟨hsteps, hle, heq⟩ := h
  cases hp with
  | shifted => exact ⟨by simp [Stats.tick]; omega, by simpa [Stats.tick], by simpa [Stats.tick]⟩
  | reduced => exact ⟨by simp [Stats.tick]; omega, by simpa [Stats.tick], by simpa [Stats.tick]⟩

def rejected (traced : Bool) (A : Ledger) (reason : Option ε) : Ledger :=
  reason.elim A fun _ => A.post traced .reject

lemma Settled.backtrack {reason : Option ε} (h : A.Settled exact m n) (hp : Posts traced A B (.backtrack reason))
    (hexact : exact → reason = none → B.stats.accepts = A.stats.accepts + 1) :
    (B.rejected traced reason).Settled exact m (n + 1) := by
  obtain ⟨hsteps, hle, heq⟩ := h
  cases hp with
  | ended =>
    cases reason with
    | none =>
      refine ⟨hsteps, hle.trans (Nat.le_succ _), fun h => ?_⟩
      exact absurd (hexact h rfl) (Nat.ne_of_lt (Nat.lt_succ_self _))
    | some e =>
      refine ⟨by simpa [rejected, Stats.tick], ?_, fun h => ?_⟩
      · simp only [rejected, Option.elim, post_stats, Stats.tick]
        omega
      · have hends := heq h
        simp only [rejected, Option.elim, post_stats, Stats.tick]
        omega
  | accepted =>
    refine ⟨by simpa [rejected, Stats.tick], ?_, fun h => ?_⟩
    · simp only [rejected, Option.elim, post_stats, Stats.tick]
      omega
    · have hends := heq h
      simp only [rejected, Option.elim, post_stats, Stats.tick]
      omega

lemma Settled.returned {depths : List Nat} (h : A.Settled exact (m + 1) (n + 1)) :
    ({ A with depths }.post traced .backtrack).Settled exact m n := by
  obtain ⟨hsteps, hle, heq⟩ := h
  refine ⟨?_, ?_, fun h => ?_⟩
  · simp only [post_stats, Stats.tick]
    omega
  · simp only [post_stats, Stats.tick]
    omega
  · have hends := heq h
    simp only [post_stats, Stats.tick]
    omega

lemma Balanced.rejected {reason : Option ε} (h : A.Balanced traced) : (A.rejected traced reason).Balanced traced := by
  cases reason with
  | none => exact h
  | some e => exact h.post (Or.inr (Or.inr rfl))

end Ledger

open Ledger

namespace Parser

variable {P : Parser τ ν κ ε δ} {tokens : Array τ} {S U E : State ν κ ε δ}

variable (P) in
def follow : State ν κ ε δ × Verdict ε → State ν κ ε δ ⊕ State ν κ ε δ × Option (Failure ε)
  | (S, .proceed) => .inl { S with choice := 0 }
  | (S, .stop failure) => .inr (S, some failure)
  | (S, .backtrack reason) =>
    match P.resume? (P.reject S reason) with
    | some U => .inl U
    | none => .inr (P.reject S reason, none)

lemma run_follow (fuel : Nat) (S : State ν κ ε δ) : P.run tokens (fuel + 1) S =
    match P.follow (P.step tokens S.counted) with
    | .inl U => P.run tokens fuel U
    | .inr ending => ending := by
  rw [run_succ]
  rcases P.step tokens S.counted with ⟨T, _ | reason | failure⟩
  · rfl
  · dsimp only [follow]
    cases P.resume? (P.reject T reason) <;> rfl
  · rfl

lemma follow_reaches (h : P.follow (P.step tokens S.counted) = .inl U) : P.Reaches tokens S U := by
  rcases hs : P.step tokens S.counted with ⟨T, _ | reason | failure⟩
  · rw [hs] at h
    obtain rfl := Sum.inl.inj h
    exact .proceed .refl hs
  · rw [hs, follow] at h
    cases hr : P.resume? (P.reject T reason) with
    | none =>
      rw [hr] at h
      cases h
    | some V =>
      rw [hr] at h
      obtain rfl := Sum.inl.inj h
      exact .resume .refl hs hr
  · rw [hs] at h
    cases h

lemma ledger_note (S : State ν κ ε δ) (e : Event ε) : (P.note S e).ledger = S.ledger.noting P.traced e.tick := by
  rw [note, noting]
  split <;> rfl

lemma ledger_save (S : State ν κ ε δ) (state alternatives : Nat) :
    (P.save S state alternatives).ledger = S.ledger.opened P.traced := by
  have hdepth : depth S.checkpoints = S.ledger.depths.headD 0 := by
    change _ = (S.checkpoints.map Checkpoint.depth).headD 0
    cases S.checkpoints <;> rfl
  rw [save, ledger_note, hdepth]
  rfl

lemma ledger_reject (S : State ν κ ε δ) (reason : Option ε) :
    (P.reject S reason).ledger = S.ledger.rejected P.traced reason := by
  cases reason with
  | none => rfl
  | some e =>
    rw [reject, ledger_note]
    rfl

lemma ledger_resume? (h : P.resume? S = some U) : ∃ d depths, S.ledger.depths = d :: depths ∧
    U.ledger = { S.ledger with depths }.post P.traced .backtrack := by
  rw [resume?] at h
  cases hc : S.checkpoints with
  | nil =>
    rw [hc] at h
    cases h
  | cons c checkpoints =>
    rw [hc] at h
    obtain rfl := Option.some.inj h
    refine ⟨c.depth, checkpoints.map Checkpoint.depth, congrArg (List.map Checkpoint.depth) hc, ?_⟩
    rw [ledger_note]
    rfl

lemma depths_of_resume?_none (h : P.resume? S = none) : S.ledger.depths = [] := by
  rw [resume?] at h
  cases hc : S.checkpoints with
  | nil => exact congrArg (List.map Checkpoint.depth) hc
  | cons c checkpoints =>
    rw [hc] at h
    cases h

lemma settle_posts {token : τ} {action : Action} {made : δ × Move ν κ ε}
    (hnext : ∀ path, made.2 = .next path → action ≠ .accept) :
    Posts P.traced S.ledger (P.settle S token action made).1.ledger (P.settle S token action made).2 := by
  obtain ⟨store, m⟩ := made
  cases m with
  | next path =>
    rw [settle]
    dsimp only
    rw [ledger_note]
    cases action with
    | shift target => exact .shifted
    | reduce index => exact .reduced
    | accept => exact absurd rfl (hnext path rfl)
  | rejected reason => exact .ended
  | stop failure => exact .failed
  | accepted value =>
    rw [settle]
    dsimp only
    rw [ledger_note]
    split
    · exact .overfull
    · exact .accepted

variable (P tokens) in
lemma step_posts (S : State ν κ ε δ) : ∃ A, Opens P.traced S.ledger A ∧
    Posts P.traced A (P.step tokens S).1.ledger (P.step tokens S).2 := by
  rcases P.step_cases tokens S with ⟨reason, hs⟩ | ⟨state, token, action, others, _, hs⟩
  · exact ⟨S.ledger, Or.inl rfl, hs ▸ .ended⟩
  · rw [hs, act_eq_settle]
    refine ⟨_, ?_, settle_posts fun path hm ha => ?_⟩
    · split
      · exact Or.inl rfl
      · exact Or.inr (ledger_save ..)
    · subst ha
      exact accept_ne_next (Prod.ext rfl hm)

variable {exact : Prop}

lemma balanced_counted (h : S.ledger.Balanced P.traced) : S.counted.ledger.Balanced P.traced :=
  ⟨h.noted, h.checkpoints_eq, h.descends, h.maxDepth_le, h.accepts_eq⟩

lemma settled_counted (h : S.ledger.Settled exact 0 0) : S.counted.ledger.Settled exact 1 0 :=
  ⟨congrArg (· + 1) h.steps_eq, h.ends_le, h.ends_eq⟩

variable (P) in
def Closed (exact : Prop) (ending : State ν κ ε δ × Option (Failure ε)) : Prop :=
  ending.1.ledger.Balanced P.traced ∧
    (ending.2 = none → ending.1.ledger.Settled exact 1 1 ∧ ending.1.ledger.depths = [])

lemma follow_settled (hb : S.ledger.Balanced P.traced) (hs : S.ledger.Settled exact 0 0)
    (hexact : exact → ∀ T, P.step tokens S.counted = (T, .backtrack none) → T.stats.accepts = S.stats.accepts + 1) :
    match P.follow (P.step tokens S.counted) with
    | .inl U => U.ledger.Balanced P.traced ∧ U.ledger.Settled exact 0 0
    | .inr ending => P.Closed exact ending := by
  obtain ⟨A, hA, hposts⟩ := P.step_posts tokens S.counted
  have hbA := (balanced_counted hb).opens hA
  have hsA := (settled_counted hs).opens hA
  have haccepts : A.stats.accepts = S.stats.accepts := hA.accepts_eq
  generalize P.step tokens S.counted = r at hposts hexact
  obtain ⟨T, v⟩ := r
  dsimp only at hposts
  have hbT := hbA.posts hposts
  cases v with
  | proceed => exact ⟨hbT, hsA.proceed hposts⟩
  | stop failure => exact ⟨hbT, nofun⟩
  | backtrack reason =>
    have hbR : (P.reject T reason).ledger.Balanced P.traced := ledger_reject (P := P) T reason ▸ hbT.rejected
    have hsR : (P.reject T reason).ledger.Settled exact 1 1 := by
      rw [ledger_reject]
      refine hsA.backtrack hposts fun he hr => ?_
      rw [haccepts]
      exact hexact he T (hr ▸ rfl)
    dsimp only [follow]
    cases hr : P.resume? (P.reject T reason) with
    | none => exact ⟨hbR, fun _ => ⟨hsR, depths_of_resume?_none hr⟩⟩
    | some U =>
      obtain ⟨d, depths, hd, hU⟩ := ledger_resume? hr
      dsimp only
      rw [hU]
      exact ⟨hbR.returned hd, hsR.returned⟩

def Exact (P : Parser τ ν κ ε δ) (tokens : Array τ) (S : State ν κ ε δ) : Prop :=
  ∀ T U, P.Reaches tokens S T → P.step tokens T.counted = (U, .backtrack none) → U.stats.accepts = T.stats.accepts + 1

lemma run_closed (hb : S.ledger.Balanced P.traced) (hs : S.ledger.Settled exact 0 0) (hexact : exact → P.Exact tokens S)
    (fuel : Nat) : P.Closed exact (P.run tokens fuel S) := by
  -- What can be reached after a step could be reached before it, so that no path is lost later either.
  induction fuel generalizing S with
  | zero => exact ⟨balanced_counted hb, nofun⟩
  | succ fuel ih =>
    have hfollow := follow_settled hb hs fun he T hT => hexact he S T .refl hT
    rw [run_follow]
    cases hr : P.follow (P.step tokens S.counted) with
    | inr ending =>
      rw [hr] at hfollow
      exact hfollow
    | inl U =>
      rw [hr] at hfollow
      exact ih hfollow.1 hfollow.2 fun he T V hT => hexact he T V ((follow_reaches hr).trans hT)

section Constructed

open LR

variable {prefers : List String} {g : Grammar} {p : Path ν κ} {store store' : δ} {token : τ}

variable (tokens store token) in
lemma move_reduce_eq {index exposed target : Nat} {production : Production}
    (hp : P.table.productions[index]? = some production) (he : p.states[production.rhs.length]? = some exposed)
    (hv : production.rhs.length ≤ p.values.length) (hg : P.table.goto? exposed production.lhs = some target) :
    (P.move tokens store p token (.reduce index)).2 = p.reduced index production.rhs.length target
      (P.builder.reduce store p.context production (p.values.take production.rhs.length).reverse).2 := by
  rw [move, reduceMove, hp]
  dsimp only
  rw [he]
  dsimp only
  rw [if_neg (Nat.not_lt.mpr hv), hg]

lemma Stands.rejected_isSome {Good : Symbol → ν → Prop} {symbols : List Symbol} {actions : List Action} {action : Action}
    {reason : Option ε} (h : P.Constructed prefers g) (hp : P.Stands tokens g Good p symbols)
    (hc : P.cell tokens p = some (token, actions)) (ha : action ∈ actions)
    (hm : P.move tokens store p token action = (store', .rejected reason)) : reason.isSome := by
  cases action with
  | shift target =>
    rcases shift_cases hm with ⟨e, he⟩ | ⟨_, _, _, _, he⟩
    · cases he
      rfl
    · cases he
  | reduce index =>
    obtain ⟨production, exposed, target, hprod, hle, _, he, _, hg⟩ := hp.reduction h hc ha
    rw [hp.good.length_eq] at hle
    have hmove := move_reduce_eq tokens store token (h.productions_eq ▸ hprod) he hle hg
    rw [hm] at hmove
    generalize (P.builder.reduce _ _ _ _).2 = made at hmove
    rcases made with (e | _) | _
    · cases hmove
      rfl
    · cases hmove
    · cases hmove
  | accept =>
    rw [move] at hm
    split at hm
    · exact absurd ‹_› (hp.accept_ne_nil h hc ha)
    · cases hm

lemma Constructed.ends {T : State ν κ ε δ} {reason : Option ε} (h : P.Constructed prefers g) (hne : tokens ≠ #[])
    (hS : P.Reaches tokens (P.start store) S) (hs : P.step tokens S.counted = (T, .backtrack reason)) :
    reason.isSome ∧ T.stats.accepts = S.stats.accepts ∨ reason = none ∧ T.stats.accepts = S.stats.accepts + 1 := by
  have hT : P.table.InRange := by
    rw [h.table_eq]
    exact (Table.validate_eq_ok.mp (Construction.ofGrammar_validate prefers h.numbered)).2
  obtain ⟨symbols, hp⟩ := Stands.of_reaches h (Builder.keeps_any _ tokens _) (Array.size_pos_iff.mpr hne) hS
  obtain ⟨state, states, token, hstates, htoken, hchoice, _⟩ :=
    (InBounds.of_reaches hT (inBounds_start store hne) hS).finds hT
  have hcell : P.cell tokens S.path = some (token, P.options state token) := by
    have hlt := (Array.getElem?_eq_some_iff.mp htoken).1
    rw [cell, hstates, Nat.min_eq_left (Nat.le_sub_one_of_lt hlt), htoken]
  obtain ⟨A, hA, hposts⟩ := P.step_posts tokens S.counted
  have htook := P.step_took tokens S.counted
  rw [hs] at hposts htook
  have haccepts : A.stats.accepts = S.stats.accepts := hA.accepts_eq
  have hfound : A.found = S.candidates.length := hA.found_eq
  rcases hposts.backtrack with hT' | ⟨hr, haccept⟩
  -- No candidate was added. A path that ends so has a reason, or else it is lost or there is no choice left for
  -- it, and neither happens with a constructed table.
  · refine Or.inl ⟨?_, (congrArg (fun B => B.stats.accepts) hT').trans haccepts⟩
    have hlength : T.core.candidates.length = S.candidates.length := (congrArg Ledger.found hT').trans hfound
    generalize T.core = D at htook hlength
    cases htook with
    | lost hc => exact absurd (hcell.symm.trans hc) (Option.some_ne_none _)
    | empty => rfl
    | exhausted hc hd hnil =>
      obtain ⟨rfl, rfl⟩ := Prod.mk.inj (Option.some.inj (hcell.symm.trans hc))
      exact absurd (List.drop_eq_nil_iff.mp hd) (Nat.not_le.mpr (hchoice.resolve_right hnil))
    | acted hc hd hm =>
      generalize hmove : P.move tokens _ _ _ _ = m at hm
      cases hm with
      | rejected => exact hp.rejected_isSome h hc (mem_of_drop hd) hmove
      | accepted => exact absurd hlength (Nat.ne_of_gt (Nat.lt_succ_self _))
  · exact Or.inr ⟨hr, haccept.trans (congrArg (· + 1) haccepts)⟩

end Constructed

end Parser

def Parse.Finds (p : Parse ν ε δ) (found : List ν) : Prop :=
  p.result = .ok found ∨ found = [] ∧ ∃ e, p.result = .error (.noParse e)

namespace Parser

variable {P : Parser τ ν κ ε δ} {tokens : Array τ}

lemma exists_run_of_finds {before : Stats} {store : δ} {found : List ν} (hne : tokens ≠ #[])
    (h : (P.parse before store tokens).Finds found) : ∃ E, P.run tokens P.limits.maxSteps (P.start store) = (E, none) ∧
      found = E.candidates.reverse := by
  rcases parse_result before store hne with ⟨E, failure, hrun, hr⟩ | ⟨E, hrun, hr, _⟩
  · rcases h with hok | ⟨_, e, he⟩
    · exact absurd (hr.symm.trans hok) nofun
    · exact absurd (Except.error.inj (hr.symm.trans he)) (run_ne_noParse hrun e)
  · refine ⟨E, hrun, ?_⟩
    rcases P.conclude_of_ne hne E with ⟨_, hk⟩ | ⟨hnil, e, hk⟩
    · rcases h with hok | ⟨_, _, he⟩
      · exact (Except.ok.inj (hk.symm.trans (hr.symm.trans hok))).symm
      · exact absurd (hk.symm.trans (hr.symm.trans he)) nofun
    · rcases h with hok | ⟨rfl, _⟩
      · exact absurd (hk.symm.trans (hr.symm.trans hok)) nofun
      · rw [hnil]
        rfl

lemma ledger_start (store : δ) (exact : Prop) : (P.start store).ledger.Balanced P.traced ∧
    (P.start store).ledger.Settled exact 0 0 :=
  ⟨⟨fun _ k => by cases k <;> rfl, rfl, trivial, le_rfl, rfl⟩, ⟨rfl, le_rfl, fun _ => rfl⟩⟩

lemma stats_parse (before : Stats) (store : δ) (hne : tokens ≠ #[]) :
    (P.parse before store tokens).stats = (P.run tokens P.limits.maxSteps (P.start store)).1.stats := by
  rw [parse, if_neg (by simpa using hne)]

lemma events_parse (before : Stats) (store : δ) (hne : tokens ≠ #[]) :
    (P.parse before store tokens).events = (P.run tokens P.limits.maxSteps (P.start store)).1.events.reverse := by
  rw [parse, if_neg (by simpa using hne)]

lemma closed_of_finds {exact : Prop} {before : Stats} {store : δ} {found : List ν} (hne : tokens ≠ #[])
    (hexact : exact → P.Exact tokens (P.start store)) (h : (P.parse before store tokens).Finds found) :
    ∃ A : Ledger, (P.parse before store tokens).stats = A.stats ∧ found.length = A.found ∧ A.Balanced P.traced ∧
      A.Settled exact 1 1 ∧ A.depths = [] := by
  obtain ⟨hbalanced, hsettled⟩ := ledger_start (P := P) store exact
  have hclosed := run_closed hbalanced hsettled hexact P.limits.maxSteps
  obtain ⟨E, hrun, rfl⟩ := exists_run_of_finds hne h
  rw [stats_parse before store hne]
  rw [hrun] at hclosed ⊢
  exact ⟨E.ledger, rfl, List.length_reverse, hclosed.1, hclosed.2 rfl⟩

open LR

/-- The counters of a parse balance, and every event is counted that is traced. With a constructed table
each path that ends is either rejected or accepted. -/
theorem parse_accounts {before : Stats} {store : δ} {p : Parse ν ε δ} (hne : tokens ≠ #[])
    (hp : P.parse before store tokens = p) :
    (P.traced = true → ∀ k, (p.events.map Event.tick).count k = p.stats.ticks k) ∧
    (∀ found, p.Finds found → p.stats.checkpoints = p.stats.backtracks ∧
      p.stats.steps = p.stats.shifts + p.stats.reductions + p.stats.backtracks + 1 ∧
      p.stats.accepts = found.length ∧ p.stats.maxDepth ≤ p.stats.checkpoints ∧
      p.stats.rejections + p.stats.accepts ≤ p.stats.backtracks + 1) ∧
    ∀ text options K, construct text options = .ok K → P.table = K.table →
      (∀ found, p.Finds found → p.stats.rejections + p.stats.accepts = p.stats.backtracks + 1) ∧
      ∀ S T reason, P.Reaches tokens (P.start store) S → P.step tokens S.counted = (T, .backtrack reason) →
        reason.isSome ∧ T.stats.accepts = S.stats.accepts ∨ reason = none ∧ T.stats.accepts = S.stats.accepts + 1 := by
  subst hp
  refine ⟨fun ht k => ?_, fun found hfound => ?_, fun text options K hK hT => ?_⟩
  · obtain ⟨hbalanced, hsettled⟩ := ledger_start (P := P) store False
    rw [stats_parse before store hne, events_parse before store hne, List.map_reverse, List.count_reverse]
    exact (run_closed hbalanced hsettled False.elim P.limits.maxSteps).1.noted ht k
  · obtain ⟨A, hA, hlength, hbalanced, hsettled, hdepths⟩ := closed_of_finds hne False.elim hfound
    have hopen := hbalanced.checkpoints_eq
    rw [hdepths] at hopen
    rw [hA, hlength]
    exact ⟨hopen, hsettled.steps_eq, hbalanced.accepts_eq, hbalanced.maxDepth_le, hsettled.ends_le⟩
  · obtain ⟨g, hg, rfl⟩ := construct_ok hK
    have hends : ∀ S T reason, P.Reaches tokens (P.start store) S → P.step tokens S.counted = (T, .backtrack reason) →
        reason.isSome ∧ T.stats.accepts = S.stats.accepts ∨ reason = none ∧ T.stats.accepts = S.stats.accepts + 1 :=
      fun _ _ _ => Constructed.ends ⟨hT, hg⟩ hne
    refine ⟨fun found hfound => ?_, hends⟩
    have hexact : P.Exact tokens (P.start store) := fun S T hS hs =>
      (hends S T none hS hs).elim (fun h => absurd h.1 nofun) And.right
    obtain ⟨A, hA, _, _, hsettled, _⟩ := closed_of_finds hne (fun _ : True => hexact) hfound
    rw [hA]
    exact hsettled.ends_eq trivial

def tracedTwofold : Parser Nat (ParseTree Nat) Unit Unit Unit := { twofoldParser with traced := true }

theorem parse_accounts_twofold : (#[0, 1] : Array Nat) ≠ #[] ∧ tracedTwofold.traced = true ∧
    ∃ p, tracedTwofold.parse {} () #[0, 1] = p ∧ (∃ found, p.Finds found ∧ p.stats.accepts = found.length) ∧
      p.stats.accepts = 2 ∧ p.stats.checkpoints = 1 ∧ p.stats.steps = p.stats.shifts + p.stats.reductions + 2 ∧
      p.stats.rejections + p.stats.accepts = p.stats.backtracks + 1 ∧
      ∀ k, (p.events.map Event.tick).count k = p.stats.ticks k := by
  have hne : (#[0, 1] : Array Nat) ≠ #[] := Array.size_pos_iff.mp Nat.two_pos
  have hfinds : (tracedTwofold.parse {} () #[0, 1]).Finds
      [.node ⟨1, "s1", 1, 1, [.term 0]⟩ [.leaf 0], .node ⟨2, "s2", 1, 2, [.term 0]⟩ [.leaf 0]] := Or.inl (by decide +kernel)
  have hcheckpoints : (tracedTwofold.parse {} () #[0, 1]).stats.checkpoints = 1 := by decide +kernel
  have hh := parse_accounts hne (rfl : tracedTwofold.parse {} () #[0, 1] = _)
  obtain ⟨hopen, hsteps, haccepts, _, _⟩ := hh.2.1 _ hfinds
  refine ⟨hne, rfl, _, rfl, ⟨_, hfinds, haccepts⟩, haccepts, hcheckpoints, ?_,
    (hh.2.2 _ _ _ construct_twofold rfl).1 _ hfinds, hh.1 rfl⟩
  rw [hsteps, ← hopen, hcheckpoints]

end Parser

end Ramify.Search
