import Ramify.Proofs.Search.Move

namespace Ramify.Search

variable {τ ν κ ε δ : Type}

def State.counted (S : State ν κ ε δ) : State ν κ ε δ := { S with stats.steps := S.stats.steps + 1 }

namespace Parser

variable (P : Parser τ ν κ ε δ) (tokens : Array τ)

inductive Reaches (S : State ν κ ε δ) : State ν κ ε δ → Prop
  | refl : Reaches S S
  | proceed {T T' : State ν κ ε δ} : Reaches S T → P.step tokens T.counted = (T', .proceed) →
      Reaches S { T' with choice := 0 }
  | resume {T T' U : State ν κ ε δ} {reason : Option ε} : Reaches S T →
      P.step tokens T.counted = (T', .backtrack reason) → P.resume? (P.reject T' reason) = some U →
      Reaches S U

variable {P tokens} {S T : State ν κ ε δ}

lemma Reaches.trans {U : State ν κ ε δ} (h : P.Reaches tokens S T) (h' : P.Reaches tokens T U) :
    P.Reaches tokens S U := by
  induction h' with
  | refl => exact h
  | proceed _ hs ih => exact ih.proceed hs
  | resume _ hs hr ih => exact ih.resume hs hr

def farther (deepest : Option (Nat × ε)) (r : Nat × ε) : Option (Nat × ε) :=
  if deepest.all fun d => d.1 ≤ r.1 then some r else deepest

def noteError (deepest : Option (Nat × ε)) (position : Nat) (reason : Option ε) : Option (Nat × ε) :=
  (reason.map (position, ·)).elim deepest (farther deepest)

lemma core_reject (S : State ν κ ε δ) (reason : Option ε) : (P.reject S reason).core =
    { S.core with deepest := noteError S.deepest S.path.position reason } := by
  cases reason with
  | none => rfl
  | some e =>
    rw [reject, core_note]
    rfl

lemma resume?_cases (S : State ν κ ε δ) :
    P.resume? S = none ∧ S.core.pending = [] ∨
      ∃ S', P.resume? S = some S' ∧ S.core.pending = (S'.path, S'.choice) :: S'.core.pending ∧
        S'.candidates = S.candidates ∧ S'.deepest = S.deepest ∧ S'.store = S.store := by
  rw [resume?]
  cases hc : S.checkpoints with
  | nil => exact Or.inl ⟨rfl, by simp [State.core, hc]⟩
  | cons c checkpoints =>
    refine Or.inr ⟨_, rfl, ?_⟩
    obtain ⟨events, he⟩ := note_eq (P := P) { S with
      path := c.path
      choice := c.alternative + 1
      checkpoints
      stats.backtracks := S.stats.backtracks + 1 }
      (.backtrack c.path.position (c.alternative + 1) (depth checkpoints))
    rw [he]
    simp [State.core, hc]

def MovesTo (P : Parser τ ν κ ε δ) (tokens : Array τ) (p q : Path ν κ) : Prop :=
  ∃ token actions action store store', P.cell tokens p = some (token, actions) ∧ action ∈ actions ∧
    P.move tokens store p token action = (store', .next q)

lemma MovesTo.position_cases {p q : Path ν κ} (h : P.MovesTo tokens p q) :
    q.position = p.position ∨ q.position = p.position + 1 ∧ q.position < tokens.size := by
  obtain ⟨token, actions, action, store, store', _, _, hm⟩ := h
  cases action with
  | shift target =>
    obtain ⟨hlast, _, _, _, rfl⟩ := shift_next hm
    exact Or.inr ⟨rfl, Nat.add_lt_of_lt_sub hlast⟩
  | reduce index =>
    obtain ⟨_, _, _, _, _, _, _, _, _, _, rfl⟩ := reduce_next hm
    exact Or.inl rfl
  | accept => exact absurd hm accept_ne_next

def Chooses (P : Parser τ ν κ ε δ) (tokens : Array τ) (S : State ν κ ε δ) (token : τ) (action : Action) :
    Prop :=
  ∃ actions, P.cell tokens S.path = some (token, actions) ∧ actions[S.choice]? = some action

def paths (S : State ν κ ε δ) : List (Path ν κ) := S.path :: S.core.pending.map Prod.fst

lemma chooses_of_drop {token : τ} {actions others : List Action} {action : Action}
    (hc : P.cell tokens S.path = some (token, actions)) (hd : actions.drop S.choice = action :: others) :
    P.Chooses tokens S token action := by
  refine ⟨actions, hc, ?_⟩
  rw [← Nat.add_zero S.choice, ← List.getElem?_drop, hd]
  rfl

lemma mem_paths_of_mark {others : List Action} {c : Path ν κ × Nat} (h : c ∈ S.mark others) :
    c.1 ∈ paths S := by
  rw [State.mark] at h
  split at h
  · exact List.mem_cons_of_mem _ (List.mem_map_of_mem h)
  · rcases List.mem_cons.mp h with rfl | h
    · exact List.mem_cons_self
    · exact List.mem_cons_of_mem _ (List.mem_map_of_mem h)

lemma Took.proceed {D : Core ν κ ε δ} (h : P.Took tokens S D .proceed) :
    (∃ token actions action, P.cell tokens S.path = some (token, actions) ∧ action ∈ actions ∧
      P.move tokens S.store S.path token action = (D.store, .next D.path)) ∧ ∀ c ∈ D.pending, c.1 ∈ paths S := by
  cases h with
  | acted hc hd hm =>
    generalize hmove : P.move tokens S.store S.path _ _ = m at hm
    cases hm with
    | next => exact ⟨⟨_, _, _, hc, mem_of_drop hd, hmove⟩, fun c hc => mem_paths_of_mark hc⟩

lemma Took.backtrack_store {D : Core ν κ ε δ} {reason : Option ε} (h : P.Took tokens S D (.backtrack reason)) :
    D.store = S.store ∨ ∃ token action, (P.move tokens S.store S.path token action).1 = D.store := by
  cases h with
  | lost => exact Or.inl rfl
  | empty => exact Or.inl rfl
  | exhausted => exact Or.inl rfl
  | @acted token _ _ action _ _ _ _ hm =>
    generalize hmove : P.move tokens S.store S.path token action = m at hm
    cases hm with
    | rejected => exact Or.inr ⟨token, action, by rw [hmove]⟩
    | accepted => exact Or.inr ⟨token, action, by rw [hmove]⟩

lemma Took.backtrack {D : Core ν κ ε δ} {reason : Option ε} (h : P.Took tokens S D (.backtrack reason)) :
    ∀ c ∈ D.pending, c.1 ∈ paths S := by
  have hself : ∀ c ∈ S.core.pending, c.1 ∈ paths S :=
    fun c hc => List.mem_cons_of_mem _ (List.mem_map_of_mem hc)
  cases h with
  | lost => exact hself
  | empty => exact hself
  | exhausted => exact hself
  | acted hc hd hm =>
    generalize P.move tokens S.store S.path _ _ = m at hm
    cases hm with
    | rejected => exact fun c hc => mem_paths_of_mark hc
    | accepted => exact fun c hc => mem_paths_of_mark hc

lemma paths_resume {reason : Option ε} {U : State ν κ ε δ} (h : P.resume? (P.reject S reason) = some U) :
    ∀ p ∈ paths U, ∃ c ∈ S.core.pending, c.1 = p := by
  have hcore := congrArg Core.pending (core_reject (P := P) S reason)
  rcases resume?_cases (P := P) (P.reject S reason) with ⟨hr, _⟩ | ⟨U', hr, hpend, _⟩
  · rw [h] at hr
    cases hr
  · obtain rfl := Option.some.inj (h.symm.trans hr)
    rw [hcore] at hpend
    intro p hp
    change p ∈ ((U.path, U.choice) :: U.core.pending).map Prod.fst at hp
    rw [← hpend] at hp
    obtain ⟨c, hc, rfl⟩ := List.mem_map.mp hp
    exact ⟨c, hc, rfl⟩

lemma store_resume {reason : Option ε} {U : State ν κ ε δ} (h : P.resume? (P.reject S reason) = some U) :
    U.store = S.store := by
  have hcore := congrArg Core.store (core_reject (P := P) S reason)
  rcases resume?_cases (P := P) (P.reject S reason) with ⟨hr, _⟩ | ⟨U', hr, _, _, _, hstore⟩
  · rw [h] at hr
    cases hr
  · obtain rfl := Option.some.inj (h.symm.trans hr)
    exact hstore.trans hcore

lemma Reaches.shared_invariant {I : δ → Path ν κ → Prop}
    (hkeep : ∀ {s p q} token action, I s p → I s q → I (P.move tokens s p token action).1 q)
    (hnext : ∀ {s s' p q token actions action}, I s p → P.cell tokens p = some (token, actions) →
      action ∈ actions → P.move tokens s p token action = (s', .next q) → I s' q)
    (h : P.Reaches tokens S T) (hS : ∀ p ∈ paths S, I S.store p) : ∀ p ∈ paths T, I T.store p := by
  induction h with
  | refl => exact hS
  | proceed _ hs ih =>
    rename_i T T' _
    have ht := P.step_took tokens T.counted
    rw [hs] at ht
    obtain ⟨⟨token, actions, action, hc, ha, hm⟩, hpend⟩ := ht.proceed
    have hself := ih T.path List.mem_cons_self
    intro p hp
    rcases List.mem_cons.mp hp with rfl | hp
    · exact hnext hself hc ha hm
    · obtain ⟨c, hc, rfl⟩ := List.mem_map.mp hp
      have hstore : (P.move tokens T.store T.path token action).1 = T'.store := congrArg Prod.fst hm
      exact hstore ▸ hkeep token action hself (ih _ (hpend c hc))
  | resume _ hs hr ih =>
    rename_i T T' U reason _
    have ht := P.step_took tokens T.counted
    rw [hs] at ht
    have hself := ih T.path List.mem_cons_self
    intro p hp
    obtain ⟨c, hc, rfl⟩ := paths_resume hr p hp
    have hpending := ih _ (ht.backtrack c hc)
    rw [store_resume hr]
    rcases ht.backtrack_store with hstore | ⟨token, action, hstore⟩
    · exact (show T'.store = T.store from hstore) ▸ hpending
    · exact (show _ = T'.store from hstore) ▸ hkeep token action hself hpending

lemma Reaches.invariant {I : Path ν κ → Prop} (hI : ∀ p q, I p → P.MovesTo tokens p q → I q)
    (h : P.Reaches tokens S T) (hS : ∀ p ∈ paths S, I p) : ∀ p ∈ paths T, I p :=
  h.shared_invariant (I := fun _ => I) (fun _ _ _ hq => hq)
    (fun hp hc ha hm => hI _ _ hp ⟨_, _, _, _, _, hc, ha, hm⟩) hS

def FailsBy (P : Parser τ ν κ ε δ) (tokens : Array τ) (S : State ν κ ε δ) (failure : Failure ε) : Prop :=
  (∃ steps, failure = .searchLimit steps) ∨ (∃ limit, failure = .candidateLimit limit) ∨
    ∃ T token action store, P.Reaches tokens S T ∧ P.Chooses tokens T token action ∧
      P.move tokens T.store T.path token action = (store, .stop failure)

lemma FailsBy.of_reaches {failure : Failure ε} (h : P.FailsBy tokens T failure)
    (hT : P.Reaches tokens S T) : P.FailsBy tokens S failure := by
  refine h.imp_right (Or.imp_right ?_)
  rintro ⟨U, token, action, store, hU, hrest⟩
  exact ⟨U, token, action, store, hT.trans hU, hrest⟩

lemma run_succ (fuel : Nat) (S : State ν κ ε δ) : P.run tokens (fuel + 1) S =
    match P.step tokens S.counted with
    | (S, .proceed) => P.run tokens fuel { S with choice := 0 }
    | (S, .stop failure) => (S, some failure)
    | (S, .backtrack reason) =>
      match P.resume? (P.reject S reason) with
      | some S => P.run tokens fuel S
      | none => (P.reject S reason, none) := rfl

lemma run_failure {fuel : Nat} {failure : Failure ε} (h : P.run tokens fuel S = (T, some failure)) :
    P.FailsBy tokens S failure := by
  induction fuel generalizing S with
  | zero =>
    cases h
    exact Or.inl ⟨_, rfl⟩
  | succ fuel ih =>
    have ht := P.step_took tokens S.counted
    rw [run_succ] at h
    rcases hs : P.step tokens S.counted with ⟨S₁, _ | reason | stop⟩
    · rw [hs] at h
      exact (ih h).of_reaches (Reaches.refl.proceed hs)
    · rw [hs] at h
      dsimp only at h
      cases hr : P.resume? (P.reject S₁ reason) with
      | none =>
        rw [hr] at h
        cases h
      | some U =>
        rw [hr] at h
        exact (ih h).of_reaches (Reaches.refl.resume hs hr)
    · rw [hs] at h ht
      obtain rfl : stop = failure := Option.some.inj (congrArg Prod.snd h)
      generalize S₁.core = D at ht
      cases ht with
      | acted hc hd hm =>
        generalize hmove : P.move tokens _ _ _ _ = m at hm
        cases hm with
        | overfull => exact Or.inr (Or.inl ⟨_, rfl⟩)
        | stopped => exact Or.inr (Or.inr ⟨S, _, _, _, .refl, chooses_of_drop hc hd, hmove⟩)

lemma Reaches.run {fuel : Nat} {E : State ν κ ε δ} (h : P.Reaches tokens S T)
    (hrun : P.run tokens fuel S = (E, none)) : ∃ rest, P.run tokens rest T = (E, none) := by
  induction h with
  | refl => exact ⟨fuel, hrun⟩
  | proceed _ hs ih =>
    obtain ⟨_ | rest, hrest⟩ := ih
    · cases hrest
    · rw [run_succ, hs] at hrest
      exact ⟨rest, hrest⟩
  | resume _ hs hr ih =>
    obtain ⟨_ | rest, hrest⟩ := ih
    · cases hrest
    · rw [run_succ, hs] at hrest
      dsimp only at hrest
      rw [hr] at hrest
      exact ⟨rest, hrest⟩

lemma run_last {fuel : Nat} (h : P.run tokens fuel S = (T, none)) :
    ∃ U U' reason, P.Reaches tokens S U ∧ P.step tokens U.counted = (U', .backtrack reason) ∧
      T = P.reject U' reason := by
  induction fuel generalizing S with
  | zero => cases h
  | succ fuel ih =>
    rw [run_succ] at h
    rcases hs : P.step tokens S.counted with ⟨S₁, _ | reason | stop⟩
    · rw [hs] at h
      obtain ⟨U, U', reason, hU, hrest⟩ := ih h
      exact ⟨U, U', reason, (Reaches.refl.proceed hs).trans hU, hrest⟩
    · rw [hs] at h
      dsimp only at h
      cases hr : P.resume? (P.reject S₁ reason) with
      | none =>
        rw [hr] at h
        exact ⟨S, S₁, reason, .refl, hs, (congrArg Prod.fst h).symm⟩
      | some U =>
        rw [hr] at h
        obtain ⟨V, V', reason', hV, hrest⟩ := ih h
        exact ⟨V, V', reason', (Reaches.refl.resume hs hr).trans hV, hrest⟩
    · rw [hs] at h
      cases h

lemma run_shared_invariant {I : δ → Path ν κ → Prop}
    (hkeep : ∀ {s p q} token action, I s p → I s q → I (P.move tokens s p token action).1 q)
    (hnext : ∀ {s s' p q token actions action}, I s p → P.cell tokens p = some (token, actions) →
      action ∈ actions → P.move tokens s p token action = (s', .next q) → I s' q)
    {fuel : Nat} {E : State ν κ ε δ} (hrun : P.run tokens fuel S = (E, none)) (h : P.Reaches tokens S T)
    (hT : ∀ p ∈ paths T, I T.store p) : ∃ p, I E.store p := by
  obtain ⟨rest, hrest⟩ := h.run hrun
  obtain ⟨U, U', reason, hU, hs, rfl⟩ := run_last hrest
  have hself := hU.shared_invariant hkeep hnext hT U.path List.mem_cons_self
  have ht := P.step_took tokens U.counted
  rw [hs] at ht
  refine ⟨U.path, ?_⟩
  rw [show (P.reject U' reason).store = U'.store from congrArg Core.store (core_reject U' reason)]
  rcases ht.backtrack_store with hstore | ⟨token, action, hstore⟩
  · exact (show U'.store = U.store from hstore) ▸ hself
  · exact (show _ = U'.store from hstore) ▸ hkeep token action hself hself

end Parser

end Ramify.Search
