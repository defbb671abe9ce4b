import Ramify.Proofs.Search.Limits

namespace Ramify.Search

def Failure.isLimit {ε : Type} : Failure ε → Bool
  | .searchLimit _ | .candidateLimit _ => true
  | _ => false

namespace Parser

variable {τ ν κ ε δ : Type} (P : Parser τ ν κ ε δ) (tokens : Array τ)

def Ends (S : State ν κ ε δ) : Prop := ∃ n ending, P.runFreely tokens n S = some ending

def EndsAll (pending : List (Path ν κ × Nat)) : Prop :=
  ∀ U : State ν κ ε δ, (U.path, U.choice) :: U.core.pending = pending → P.Ends tokens U

/-- The path cannot be followed for ever. -/
def Finite (p : Path ν κ) : Prop := Acc (fun q p => P.MovesTo tokens p q) p

variable {P tokens} {S : State ν κ ε δ} {p : Path ν κ}

lemma ends_of_follow (h : ∀ U, P.follow (P.stepFreely tokens S.counted) = .inl U → P.Ends tokens U) :
    P.Ends tokens S := by
  cases hf : P.follow (P.stepFreely tokens S.counted) with
  | inl U =>
    obtain ⟨n, ending, hn⟩ := h U hf
    refine ⟨n + 1, ending, ?_⟩
    rw [runFreely, hf]
    exact hn
  | inr ending =>
    refine ⟨1, ending, ?_⟩
    rw [runFreely, hf]

lemma EndsAll.backtrack {T U : State ν κ ε δ} {reason : Option ε} (h : P.EndsAll tokens T.core.pending)
    (hU : P.follow (T, .backtrack reason) = .inl U) : P.Ends tokens U := by
  have hcore := core_reject (P := P) T reason
  rw [follow] at hU
  rcases resume?_cases (P := P) (P.reject T reason) with ⟨hr, _⟩ | ⟨U', hr, hpend, _⟩
  · rw [hr] at hU
    cases hU
  · rw [hr] at hU
    obtain rfl := Sum.inl.inj hU
    rw [hcore] at hpend
    exact h U' hpend.symm

lemma EndsAll.mark {others : List Action} (h : P.EndsAll tokens S.core.pending)
    (hself : P.EndsAll tokens ((S.path, S.choice + 1) :: S.core.pending)) : P.EndsAll tokens (S.mark others) := by
  rw [State.mark]
  split
  · exact h
  · exact hself

variable (P tokens S) in
lemma stepFreely_took : ∃ L : Limits,
    (P.within L).Took tokens S (P.stepFreely tokens S).1.core (P.stepFreely tokens S).2 := by
  have hstep : (P.within ⟨0, (P.stepFreely tokens S).1.stats.accepts⟩).step tokens S = P.stepFreely tokens S := by
    rw [step_within, clip_within le_rfl]
  exact ⟨_, hstep ▸ step_took _ tokens S⟩

lemma ends_of_step (h : P.EndsAll tokens S.core.pending)
    (hself : ∀ token actions action others, P.cell tokens S.path = some (token, actions) →
      actions.drop S.choice = action :: others → P.EndsAll tokens ((S.path, S.choice + 1) :: S.core.pending))
    (hnext : ∀ U : State ν κ ε δ, P.MovesTo tokens S.path U.path → P.EndsAll tokens U.core.pending → P.Ends tokens U) :
    P.Ends tokens S := by
  refine ends_of_follow fun U hU => ?_
  obtain ⟨L, htook⟩ := stepFreely_took P tokens S.counted
  generalize P.stepFreely tokens S.counted = r at htook hU
  obtain ⟨T, v⟩ := r
  dsimp only at htook
  generalize hC : T.core = C at htook
  cases htook with
  | lost => exact EndsAll.backtrack (hC ▸ h) hU
  | empty => exact EndsAll.backtrack (hC ▸ h) hU
  | exhausted => exact EndsAll.backtrack (hC ▸ h) hU
  | @acted token actions others action _ _ hc hd hm =>
    have hmark : P.EndsAll tokens (S.mark others) := h.mark (hself token actions action others hc hd)
    generalize hmove : (P.within L).move tokens _ _ _ _ = m at hm
    cases hm with
    | rejected => exact EndsAll.backtrack (hC ▸ hmark) hU
    | accepted => exact EndsAll.backtrack (hC ▸ hmark) hU
    | overfull => cases hU
    | stopped => cases hU
    | next =>
      obtain rfl := Sum.inl.inj hU
      have hpath : T.path = _ := congrArg Core.path hC
      have hpending : T.core.pending = S.mark others := congrArg Core.pending hC
      refine hnext _ ?_ (hpending ▸ hmark)
      rw [hpath]
      exact ⟨token, actions, action, _, _, hc, mem_of_drop hd, hmove⟩

lemma Finite.ends (h : P.Finite tokens p) (hp : S.path = p) (hall : P.EndsAll tokens S.core.pending) :
    P.Ends tokens S := by
  induction h generalizing S with
  | intro p _ ih =>
    -- Within the cell of the path there is one action less each time.
    generalize hn : ((P.cell tokens p).elim 0 fun c => c.2.length) - S.choice = n
    induction n using Nat.strong_induction_on generalizing S with
    | h n ihn =>
      subst hp
      refine ends_of_step hall (fun token actions action others hc hd U hU => ?_) fun U hmoves => ih U.path hmoves rfl
      obtain ⟨hpath, hpending⟩ := List.cons.inj hU
      obtain ⟨hpath, hchoice⟩ := Prod.mk.inj hpath
      have hlt : S.choice < actions.length := by
        refine Nat.not_le.mp fun hle => ?_
        rw [List.drop_eq_nil_of_le hle] at hd
        cases hd
      refine ihn _ ?_ hpath (hpending ▸ hall) rfl
      rw [← hn, hc, hchoice]
      dsimp only [Option.elim]
      omega

lemma ends_of_finite (h : ∀ q ∈ paths S, P.Finite tokens q) : P.Ends tokens S := by
  have hpending : ∀ pending : List (Path ν κ × Nat), (∀ c ∈ pending, P.Finite tokens c.1) →
      P.EndsAll tokens pending := by
    intro pending
    induction pending with
    | nil => exact fun _ => nofun
    | cons c pending ih =>
      intro hfinite U hU
      obtain ⟨rfl, rfl⟩ := List.cons.inj hU
      rw [List.forall_mem_cons] at hfinite
      exact hfinite.1.ends rfl (ih hfinite.2)
  refine Finite.ends (h S.path List.mem_cons_self) rfl (hpending _ fun c hc => h c.1 ?_)
  exact List.mem_cons_of_mem _ (List.mem_map_of_mem hc)

section Limits

variable {n : Nat} {ending : State ν κ ε δ × Option (Failure ε)} {failure : Failure ε}

lemma stepFreely_stop (h : (P.stepFreely tokens S).2 = .stop failure) : failure.isLimit = false := by
  have hlimit : ∀ limit, (P.stepFreely tokens S).2 ≠ .stop (.candidateLimit limit) := by
    intro limit
    rw [stepFreely]
    rcases P.step tokens S with ⟨T, _ | _ | _ | _ | _ | _ | _ | _⟩ <;> intro hstop <;> cases hstop
  obtain ⟨L, htook⟩ := stepFreely_took P tokens S
  rw [h] at hlimit htook
  generalize (P.stepFreely tokens S).1.core = C at htook
  cases htook with
  | acted hc hd hm =>
    generalize hmove : (P.within L).move tokens _ _ _ _ = m at hm
    cases hm with
    | overfull => exact absurd rfl (hlimit _)
    | stopped => obtain ⟨_, _, _, _, _, _, _, ⟨_, rfl⟩ | ⟨rfl, _⟩⟩ := move_stop hmove <;> rfl

lemma runFreely_stop (h : P.runFreely tokens n S = some ending) (hf : ending.2 = some failure) :
    failure.isLimit = false := by
  induction n generalizing S with
  | zero => cases h
  | succ n ih =>
    rw [runFreely] at h
    cases hr : P.follow (P.stepFreely tokens S.counted) with
    | inl U =>
      rw [hr] at h
      exact ih h
    | inr ending' =>
      rw [hr] at h
      obtain rfl := Option.some.inj h
      suffices hstop : (P.stepFreely tokens S.counted).2 = .stop failure from stepFreely_stop hstop
      generalize P.stepFreely tokens S.counted = r at hr
      obtain ⟨T, v⟩ := r
      cases v with
      | proceed => cases hr
      | stop failure' =>
        obtain rfl := Sum.inr.inj hr
        obtain rfl := Option.some.inj hf
        rfl
      | backtrack reason =>
        rw [follow] at hr
        split at hr
        · cases hr
        · obtain rfl := Sum.inr.inj hr
          cases hf

lemma Ends.exists_limits {store : δ} (h : P.Ends tokens (P.start store)) (before : Stats) (hne : tokens ≠ #[]) :
    ∃ L₀ : Limits, ∀ L : Limits, L₀.maxSteps ≤ L.maxSteps → L₀.maxCandidates ≤ L.maxCandidates →
      ∀ failure, ((P.within L).parse before store tokens).result = .error failure → failure.isLimit = false := by
  obtain ⟨n, ending, hrun⟩ := h
  refine ⟨⟨n, ending.1.stats.accepts⟩, fun L hsteps hcandidates failure hfailure => ?_⟩
  rw [parse_of_runFreely hne hrun hsteps hcandidates, report] at hfailure
  cases hf : ending.2 with
  | some failure' =>
    rw [hf] at hfailure
    obtain rfl := Except.error.inj hfailure
    exact runFreely_stop hrun hf
  | none =>
    rw [hf] at hfailure
    dsimp only at hfailure
    rcases conclude_cases ending.1 with ⟨_, hk⟩ | ⟨_, ⟨_, _, _, hk⟩ | ⟨_, ⟨_, _, hk⟩ | ⟨_, hk⟩⟩⟩ <;>
      rw [hk] at hfailure <;> cases hfailure <;> rfl

end Limits

end Parser

end Ramify.Search
