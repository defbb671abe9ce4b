import Ramify.Proofs.Search.Accounts

/-! The limits of a search. Without limits a search takes some number of steps and finds some number
of values, or never ends. A limit cuts it off where one step or one value more would be too many;
a search that is not cut off is the search without limits. -/

namespace Ramify.Search.Parser

variable {τ ν κ ε δ : Type} (P : Parser τ ν κ ε δ) (tokens : Array τ)

def within (L : Limits) : Parser τ ν κ ε δ := { P with limits := L }

def unlimited : State ν κ ε δ × Verdict ε → State ν κ ε δ × Verdict ε
  | (S, .stop (.candidateLimit _)) => (S, .backtrack none)
  | r => r

def clip (L : Limits) (found : Nat) (r : State ν κ ε δ × Verdict ε) : State ν κ ε δ × Verdict ε :=
  if found < r.1.stats.accepts ∧ L.maxCandidates < r.1.stats.accepts then
    (r.1, .stop (.candidateLimit L.maxCandidates))
  else r

def stepFreely (S : State ν κ ε δ) : State ν κ ε δ × Verdict ε := unlimited (P.step tokens S)

/-- The search without limits; `none` says that it has not ended after `n` steps. -/
def runFreely : Nat → State ν κ ε δ → Option (State ν κ ε δ × Option (Failure ε))
  | 0, _ => none
  | n + 1, S =>
    match P.follow (P.stepFreely tokens S.counted) with
    | .inl U => runFreely n U
    | .inr ending => some ending

def report (ending : State ν κ ε δ × Option (Failure ε)) : Parse ν ε δ where
  result := match ending.2 with
    | some failure => .error failure
    | none => P.conclude tokens ending.1
  stats := ending.1.stats
  store := ending.1.store
  events := ending.1.events.reverse

def parseFreely (n : Nat) (before : Stats) (store : δ) : Option (Parse ν ε δ) :=
  if tokens.isEmpty then some { result := .error .emptyInput, stats := before, store }
  else (P.runFreely tokens n (P.start store)).map (P.report tokens)

variable {P tokens} {S U E : State ν κ ε δ} {L : Limits} {ending : State ν κ ε δ × Option (Failure ε)}

lemma parse_eq_report (before : Stats) (store : δ) (hne : tokens ≠ #[]) :
    P.parse before store tokens = P.report tokens (P.run tokens P.limits.maxSteps (P.start store)) := by
  rw [parse, if_neg (by simpa using hne)]
  rfl

lemma parseFreely_eq (n : Nat) (before : Stats) (store : δ) (hne : tokens ≠ #[]) :
    P.parseFreely tokens n before store = (P.runFreely tokens n (P.start store)).map (P.report tokens) := by
  rw [parseFreely, if_neg (by simpa using hne)]

section Steps

@[simp]
lemma stats_note (S : State ν κ ε δ) (e : Event ε) : (P.note S e).stats = S.stats := by
  obtain ⟨events, he⟩ := note_eq (P := P) S e
  rw [he]

lemma clip_kept {found : Nat} {r : State ν κ ε δ × Verdict ε} (h : r.1.stats.accepts ≤ found) : clip L found r = r :=
  if_neg fun hh => Nat.not_lt.mpr h hh.1

lemma clip_within {found : Nat} {r : State ν κ ε δ × Verdict ε} (h : r.1.stats.accepts ≤ L.maxCandidates) :
    clip L found r = r :=
  if_neg fun hh => Nat.not_lt.mpr h hh.2

lemma settle_within {token : τ} {action : Action} {made : δ × Move ν κ ε}
    (hmade : ∀ limit, made.2 ≠ .stop (.candidateLimit limit)) : (P.within L).settle S token action made =
      clip L S.stats.accepts (unlimited (P.settle S token action made)) := by
  obtain ⟨store, m⟩ := made
  cases m with
  | next path =>
    refine (clip_kept ?_).symm
    change (P.note _ _).stats.accepts ≤ _
    rw [stats_note]
    cases action <;> exact le_rfl
  | rejected reason => exact (clip_kept le_rfl).symm
  | stop failure =>
    have hfailure : unlimited (P.settle S token action (store, .stop failure)) =
        ({ S with store }, .stop failure) := by
      cases failure with
      | candidateLimit limit => exact absurd rfl (hmade limit)
      | _ => rfl
    rw [hfailure]
    exact (clip_kept le_rfl).symm
  | accepted value =>
    have haccepts : (P.settle S token action (store, .accepted value)).1.stats.accepts = S.stats.accepts + 1 :=
      congrArg Stats.accepts (stats_note ..)
    have hfree : unlimited (P.settle S token action (store, .accepted value)) =
        ((P.settle S token action (store, .accepted value)).1, .backtrack none) := by
      rw [settle]
      dsimp only
      split <;> rfl
    rw [hfree, clip, haccepts]
    by_cases hlimit : L.maxCandidates < S.stats.accepts + 1
    · rw [if_pos ⟨Nat.lt_succ_self S.stats.accepts, hlimit⟩]
      exact congrArg (Prod.mk _) (if_pos hlimit)
    · rw [if_neg (fun hh => hlimit hh.2)]
      exact congrArg (Prod.mk _) (if_neg hlimit)

variable (P tokens L) in
lemma step_within (S : State ν κ ε δ) :
    (P.within L).step tokens S = clip L S.stats.accepts (P.stepFreely tokens S) := by
  rw [stepFreely]
  cases hs : S.path.states with
  | nil =>
    rw [step, step, hs]
    exact (clip_kept le_rfl).symm
  | cons state states =>
    cases ht : tokens[min S.path.position (tokens.size - 1)]? with
    | none =>
      rw [step, step, hs, ht]
      exact (clip_kept le_rfl).symm
    | some token =>
      rw [step_eq hs ht, step_eq hs ht, show (P.within L).options state token = P.options state token from rfl]
      cases (P.options state token).drop S.choice with
      | nil => exact (clip_kept le_rfl).symm
      | cons action others =>
        dsimp only
        rw [act_eq_settle, act_eq_settle]
        have hsaved : (if others.isEmpty then S else P.save S state (P.options state token).length).stats.accepts =
            S.stats.accepts := by
          split
          · rfl
          · rw [save, stats_note]
        rw [← hsaved]
        exact settle_within fun limit hm => by
          obtain ⟨_, _, _, _, _, _, _, ⟨_, hf⟩ | ⟨hf, _⟩⟩ := move_stop (Prod.ext rfl hm) <;> cases hf

end Steps

section Runs

def reached : State ν κ ε δ ⊕ State ν κ ε δ × Option (Failure ε) → State ν κ ε δ := Sum.elim id Prod.fst

lemma unlimited_state (r : State ν κ ε δ × Verdict ε) : (unlimited r).1 = r.1 := by
  rcases r with ⟨T, _ | reason | _ | _ | _ | _ | _ | _⟩ <;> rfl

lemma reached_follow (r : State ν κ ε δ × Verdict ε) : (reached (P.follow r)).stats.steps = r.1.stats.steps ∧
    (reached (P.follow r)).stats.accepts = r.1.stats.accepts := by
  rcases r with ⟨T, _ | reason | failure⟩
  · exact ⟨rfl, rfl⟩
  · have hreject : (P.reject T reason).stats.steps = T.stats.steps ∧
        (P.reject T reason).stats.accepts = T.stats.accepts := by
      cases reason with
      | none => exact ⟨rfl, rfl⟩
      | some e =>
        rw [reject, stats_note]
        exact ⟨rfl, rfl⟩
    dsimp only [follow]
    cases hr : P.resume? (P.reject T reason) with
    | none => exact hreject
    | some U =>
      obtain ⟨_, depths, _, hU⟩ := ledger_resume? hr
      have hstats : U.stats = (P.reject T reason).stats.tick .backtrack :=
        (congrArg Ledger.stats hU).trans Ledger.post_stats
      change U.stats.steps = _ ∧ U.stats.accepts = _
      rw [hstats]
      exact hreject
  · exact ⟨rfl, rfl⟩

variable (P tokens S) in
lemma stepFreely_stats : (P.stepFreely tokens S).1.stats.steps = S.stats.steps ∧
    S.stats.accepts ≤ (P.stepFreely tokens S).1.stats.accepts := by
  rw [stepFreely, unlimited_state]
  obtain ⟨A, hA, hposts⟩ := P.step_posts tokens S
  have hsame : A.stats.steps = S.stats.steps ∧ A.stats.accepts = S.stats.accepts := ⟨hA.steps_eq, hA.accepts_eq⟩
  have hstats : (P.step tokens S).1.ledger.stats.steps = A.stats.steps ∧
      A.stats.accepts ≤ (P.step tokens S).1.ledger.stats.accepts := by
    generalize (P.step tokens S).1.ledger = B at hposts
    generalize (P.step tokens S).2 = v at hposts
    cases hposts with
    | ended => exact ⟨rfl, le_rfl⟩
    | failed => exact ⟨rfl, le_rfl⟩
    | _ =>
      rw [Ledger.post_stats]
      exact ⟨rfl, by simp [Stats.tick]⟩
  rw [hsame.1, hsame.2] at hstats
  exact hstats

lemma reached_stepFreely {x : State ν κ ε δ ⊕ State ν κ ε δ × Option (Failure ε)}
    (hx : P.follow (P.stepFreely tokens S.counted) = x) : (reached x).stats.steps = S.stats.steps + 1 ∧
      S.stats.accepts ≤ (reached x).stats.accepts := by
  obtain ⟨hsteps, haccepts⟩ := reached_follow (P := P) (P.stepFreely tokens S.counted)
  obtain ⟨hsteps', haccepts'⟩ := stepFreely_stats P tokens S.counted
  rw [← hx, hsteps, haccepts]
  exact ⟨hsteps', haccepts'⟩

lemma follow_within (r : State ν κ ε δ × Verdict ε) : (P.within L).follow r = P.follow r := rfl

lemma runFreely_mono {n m : Nat} (h : P.runFreely tokens n S = some ending) (hle : n ≤ m) :
    P.runFreely tokens m S = some ending := by
  induction n generalizing S m with
  | zero => cases h
  | succ n ih =>
    obtain ⟨m, rfl⟩ := Nat.exists_eq_succ_of_ne_zero (Nat.ne_zero_of_lt hle)
    rw [runFreely] at h ⊢
    cases hr : P.follow (P.stepFreely tokens S.counted) with
    | inl U =>
      rw [hr] at h
      exact ih h (Nat.le_of_succ_le_succ hle)
    | inr ending' =>
      rw [hr] at h
      exact h

lemma runFreely_accepts {n : Nat} (h : P.runFreely tokens n S = some ending) :
    S.stats.accepts ≤ ending.1.stats.accepts := by
  induction n generalizing S with
  | zero => cases h
  | succ n ih =>
    rw [runFreely] at h
    cases hr : P.follow (P.stepFreely tokens S.counted) with
    | inl U =>
      rw [hr] at h
      exact (reached_stepFreely hr).2.trans (ih h)
    | inr ending' =>
      rw [hr] at h
      obtain rfl := Option.some.inj h
      exact (reached_stepFreely hr).2

lemma runFreely_steps {n : Nat} (h : P.runFreely tokens n S = some ending) :
    ∃ m ≤ n, ending.1.stats.steps = S.stats.steps + m ∧ P.runFreely tokens m S = some ending := by
  induction n generalizing S with
  | zero => cases h
  | succ n ih =>
    rw [runFreely] at h
    cases hr : P.follow (P.stepFreely tokens S.counted) with
    | inl U =>
      rw [hr] at h
      obtain ⟨m, hle, hsteps, hm⟩ := ih h
      refine ⟨m + 1, Nat.succ_le_succ hle, ?_, by rw [runFreely, hr]; exact hm⟩
      rw [hsteps, show U.stats.steps = S.stats.steps + 1 from (reached_stepFreely hr).1]
      omega
    | inr ending' =>
      rw [hr] at h
      obtain rfl := Option.some.inj h
      exact ⟨1, Nat.succ_le_succ (Nat.zero_le n), (reached_stepFreely hr).1, by rw [runFreely, hr]⟩

lemma run_of_runFreely {n fuel : Nat} (h : P.runFreely tokens n S = some ending)
    (hmax : ending.1.stats.accepts ≤ L.maxCandidates) (hle : n ≤ fuel) : (P.within L).run tokens fuel S = ending := by
  induction n generalizing S fuel with
  | zero => cases h
  | succ n ih =>
    obtain ⟨fuel, rfl⟩ := Nat.exists_eq_succ_of_ne_zero (Nat.ne_zero_of_lt hle)
    rw [runFreely] at h
    have hstep : (reached (P.follow (P.stepFreely tokens S.counted))).stats.accepts ≤ ending.1.stats.accepts := by
      cases hr : P.follow (P.stepFreely tokens S.counted) with
      | inl U =>
        rw [hr] at h
        exact runFreely_accepts h
      | inr ending' =>
        rw [hr] at h
        exact (Option.some.inj h) ▸ le_rfl
    rw [(reached_follow _).2] at hstep
    rw [run_follow, step_within, clip_within (hstep.trans hmax), follow_within]
    cases hr : P.follow (P.stepFreely tokens S.counted) with
    | inl U =>
      rw [hr] at h
      exact ih h (Nat.le_of_succ_le_succ hle)
    | inr ending' =>
      rw [hr] at h
      exact Option.some.inj h

lemma runFreely_of_run {fuel : Nat} (h : (P.within L).run tokens fuel S = ending)
    (hsteps : ∀ steps, ending.2 ≠ some (.searchLimit steps)) (hmax : ∀ limit, ending.2 ≠ some (.candidateLimit limit)) :
    P.runFreely tokens fuel S = some ending ∧
      (S.stats.accepts ≤ L.maxCandidates → ending.1.stats.accepts ≤ L.maxCandidates) := by
  induction fuel generalizing S with
  | zero => exact absurd (congrArg Prod.snd h.symm) (hsteps _)
  | succ fuel ih =>
    rw [run_follow, step_within] at h
    by_cases hclip : S.counted.stats.accepts < (P.stepFreely tokens S.counted).1.stats.accepts ∧
        L.maxCandidates < (P.stepFreely tokens S.counted).1.stats.accepts
    · rw [clip, if_pos hclip] at h
      exact absurd (congrArg Prod.snd h.symm) (hmax _)
    · rw [clip, if_neg hclip, follow_within] at h
      have hbelow : S.stats.accepts ≤ L.maxCandidates →
          (reached (P.follow (P.stepFreely tokens S.counted))).stats.accepts ≤ L.maxCandidates := by
        intro hS
        rw [(reached_follow _).2]
        rcases Nat.lt_or_ge S.counted.stats.accepts (P.stepFreely tokens S.counted).1.stats.accepts with hlt | hge
        · exact Nat.not_lt.mp fun hover => hclip ⟨hlt, hover⟩
        · exact hge.trans hS
      rw [runFreely]
      cases hr : P.follow (P.stepFreely tokens S.counted) with
      | inl U =>
        rw [hr] at h hbelow
        obtain ⟨hrun, hle⟩ := ih h
        exact ⟨hrun, fun hS => hle (hbelow hS)⟩
      | inr ending' =>
        rw [hr] at h hbelow
        obtain rfl : ending' = ending := h
        exact ⟨rfl, hbelow⟩

end Runs

section Parses

variable {before : Stats} {store : δ} {p : Parse ν ε δ}

lemma ne_of_report {failure : Failure ε} (h : (P.report tokens ending).result ≠ .error failure) :
    ending.2 ≠ some failure :=
  fun hf => h (by rw [report, hf])

lemma within_parse (L : Limits) (hne : tokens ≠ #[]) : (P.within L).parse before store tokens =
    P.report tokens ((P.within L).run tokens L.maxSteps (P.start store)) :=
  parse_eq_report before store hne

lemma parse_of_runFreely {n : Nat} (hne : tokens ≠ #[]) (h : P.runFreely tokens n (P.start store) = some ending)
    (hle : n ≤ L.maxSteps) (hmax : ending.1.stats.accepts ≤ L.maxCandidates) :
    (P.within L).parse before store tokens = P.report tokens ending := by
  rw [within_parse L hne, run_of_runFreely h hmax hle]

lemma runFreely_of_parse (hne : tokens ≠ #[])
    (hsteps : ∀ steps, ((P.within L).parse before store tokens).result ≠ .error (.searchLimit steps))
    (hmax : ∀ limit, ((P.within L).parse before store tokens).result ≠ .error (.candidateLimit limit)) :
    ∃ ending, P.runFreely tokens L.maxSteps (P.start store) = some ending ∧
      ending.1.stats.accepts ≤ L.maxCandidates ∧ (P.within L).parse before store tokens = P.report tokens ending := by
  rw [within_parse L hne] at hsteps hmax
  obtain ⟨hrun, hle⟩ := runFreely_of_run (P := P) (L := L) rfl (fun steps => ne_of_report (hsteps steps))
    fun limit => ne_of_report (hmax limit)
  exact ⟨_, hrun, hle (Nat.zero_le _), within_parse L hne⟩

lemma ne_limit_of_finds {found : List ν} (h : p.Finds found) :
    (∀ steps, p.result ≠ .error (.searchLimit steps)) ∧ ∀ limit, p.result ≠ .error (.candidateLimit limit) := by
  rcases h with h | ⟨_, e, h⟩ <;> rw [h] <;> exact ⟨nofun, nofun⟩

end Parses

/-- Limits only cut a search off. What a parse reports under some limits, unless it has hit one, it reports
under all larger ones; and a search that without limits takes `N` steps and ends with the values `found`
does so under exactly those limits that allow for the steps and the values. -/
theorem parse_limits (P : Parser τ ν κ ε δ) (before : Stats) (store : δ) (tokens : Array τ) :
    (∀ L L' : Limits, L.maxSteps ≤ L'.maxSteps → L.maxCandidates ≤ L'.maxCandidates →
      (∀ steps, ((P.within L).parse before store tokens).result ≠ .error (.searchLimit steps)) →
      (∀ limit, ((P.within L).parse before store tokens).result ≠ .error (.candidateLimit limit)) →
      (P.within L').parse before store tokens = (P.within L).parse before store tokens) ∧
    ∀ (N : Nat) (p : Parse ν ε δ) (found : List ν), IsLeast {n | P.parseFreely tokens n before store = some p} N →
      p.Finds found → p.stats.steps = N ∧ p.stats.accepts = found.length ∧ ∀ L : Limits,
        (((P.within L).parse before store tokens).result = p.result ↔
          N ≤ L.maxSteps ∧ found.length ≤ L.maxCandidates) ∧
        (N ≤ L.maxSteps → found.length ≤ L.maxCandidates → (P.within L).parse before store tokens = p) := by
  by_cases hne : tokens = #[]
  · subst hne
    refine ⟨fun _ _ _ _ _ _ => rfl, fun N p found hN hfinds => ?_⟩
    obtain rfl := Option.some.inj hN.1
    rcases hfinds with h | ⟨_, _, h⟩ <;> cases h
  refine ⟨fun L L' hsteps hmax hsearch hcandidate => ?_, fun N p found hN hfinds => ?_⟩
  · obtain ⟨ending, hrun, hfound, hparse⟩ := runFreely_of_parse hne hsearch hcandidate
    rw [hparse]
    exact parse_of_runFreely hne hrun hsteps (hfound.trans hmax)
  have hp := hN.1
  rw [Set.mem_ofPred_eq, parseFreely_eq N before store hne] at hp
  obtain ⟨ending, hrun, rfl⟩ := Option.map_eq_some_iff.mp hp
  have haccepts : ending.1.stats.accepts = found.length := by
    have hself : (P.within ⟨N, ending.1.stats.accepts⟩).parse before store tokens = P.report tokens ending :=
      parse_of_runFreely hne hrun le_rfl le_rfl
    exact ((parse_accounts hne hself).2.1 found hfinds).2.2.1
  have hleast : ∀ n, P.runFreely tokens n (P.start store) = some ending → N ≤ n := fun n hn => hN.2 (by
    rw [Set.mem_ofPred_eq, parseFreely_eq n before store hne, hn]
    rfl)
  refine ⟨?_, haccepts, fun L => ?_⟩
  · obtain ⟨m, hle, hsteps, hm⟩ := runFreely_steps hrun
    rw [show (P.report tokens ending).stats.steps = m from hsteps.trans (Nat.zero_add m)]
    exact Nat.le_antisymm hle (hleast m hm)
  · have hwithin : N ≤ L.maxSteps → found.length ≤ L.maxCandidates →
        (P.within L).parse before store tokens = P.report tokens ending :=
      fun hsteps hmax => parse_of_runFreely hne hrun hsteps (haccepts.trans_le hmax)
    refine ⟨⟨fun hresult => ?_, fun ⟨hsteps, hmax⟩ => congrArg Parse.result (hwithin hsteps hmax)⟩, hwithin⟩
    obtain ⟨hsearch, hcandidate⟩ := ne_limit_of_finds hfinds
    obtain ⟨ending', hrun', hfound, _⟩ := runFreely_of_parse hne (hresult ▸ hsearch) (hresult ▸ hcandidate)
    have hsame : ending' = ending := Option.some.inj ((runFreely_mono hrun' (Nat.le_max_right N L.maxSteps)).symm.trans
      (runFreely_mono hrun (Nat.le_max_left N L.maxSteps)))
    rw [hsame] at hrun' hfound
    exact ⟨hleast _ hrun', haccepts ▸ hfound⟩

lemma parseFreely_twofold : ∃ p, IsLeast {n | twofoldParser.parseFreely #[0, 1] n {} () = some p} 5 ∧
    p.Finds [.node ⟨1, "s1", 1, 1, [.term 0]⟩ [.leaf 0], .node ⟨2, "s2", 1, 2, [.term 0]⟩ [.leaf 0]] := by
  have hfive : (twofoldParser.parseFreely #[0, 1] 5 {} ()).map Parse.result = some (.ok
      [.node ⟨1, "s1", 1, 1, [.term 0]⟩ [.leaf 0], .node ⟨2, "s2", 1, 2, [.term 0]⟩ [.leaf 0]]) := by decide +kernel
  have hfour : twofoldParser.runFreely #[0, 1] 4 (twofoldParser.start ()) = none := by decide +kernel
  have hne : (#[0, 1] : Array Nat) ≠ #[] := Array.size_pos_iff.mp Nat.two_pos
  obtain ⟨p, hp, hresult⟩ := Option.map_eq_some_iff.mp hfive
  refine ⟨p, ⟨hp, fun n hn => Nat.not_lt.mp fun hlt => ?_⟩, Or.inl hresult⟩
  rw [Set.mem_ofPred_eq, parseFreely_eq n _ _ hne] at hn
  obtain ⟨ending, hrun, _⟩ := Option.map_eq_some_iff.mp hn
  exact absurd ((runFreely_mono hrun (Nat.le_of_lt_succ hlt)).symm.trans hfour) (Option.some_ne_none _)

theorem parse_limits_twofold : ∃ p found, IsLeast {n | twofoldParser.parseFreely #[0, 1] n {} () = some p} 5 ∧
    p.Finds found ∧ found.length = 2 ∧ p.stats.steps = 5 ∧
    ((twofoldParser.within ⟨5, 2⟩).parse {} () #[0, 1]).result = p.result ∧
    ((twofoldParser.within ⟨4, 2⟩).parse {} () #[0, 1]).result ≠ p.result ∧
    ((twofoldParser.within ⟨5, 1⟩).parse {} () #[0, 1]).result ≠ p.result ∧
    (twofoldParser.within ⟨100, 3⟩).parse {} () #[0, 1] = (twofoldParser.within ⟨5, 2⟩).parse {} () #[0, 1] := by
  obtain ⟨p, hN, hfinds⟩ := parseFreely_twofold
  obtain ⟨hlarger, hexact⟩ := parse_limits twofoldParser {} () #[0, 1]
  obtain ⟨hsteps, _, hiff⟩ := hexact 5 p _ hN hfinds
  have hresult := (hiff ⟨5, 2⟩).1.mpr ⟨le_rfl, le_rfl⟩
  obtain ⟨hsearch, hcandidate⟩ := ne_limit_of_finds hfinds
  refine ⟨p, _, hN, hfinds, rfl, hsteps, hresult, fun h => ?_, fun h => ?_, ?_⟩
  · exact absurd ((hiff ⟨4, 2⟩).1.mp h).1 (by decide)
  · exact absurd ((hiff ⟨5, 1⟩).1.mp h).2 (by decide)
  · exact hlarger ⟨5, 2⟩ ⟨100, 3⟩ (by decide) (by decide) (hresult ▸ hsearch) (hresult ▸ hcandidate)

end Ramify.Search.Parser
