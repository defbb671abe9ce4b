import Ramify.Proofs.Search.Reach

namespace Ramify.Search

variable {τ ν κ ε δ : Type}

structure Tally (ν κ : Type) where
  checkpoints : List (Checkpoint ν κ)
  saved : Nat
  candidates : List ν
  accepts : Nat

def State.tally (S : State ν κ ε δ) : Tally ν κ :=
  ⟨S.checkpoints, S.stats.checkpoints, S.candidates, S.stats.accepts⟩

namespace Parser

variable {P : Parser τ ν κ ε δ} {tokens : Array τ}

variable (P) in
inductive Scores (C : Tally ν κ) : Tally ν κ → Verdict ε → Prop
  | kept {v : Verdict ε} : (∀ limit, v ≠ .stop (.candidateLimit limit)) → Scores C C v
  | accepted {value : ν} : C.accepts + 1 ≤ P.limits.maxCandidates →
      Scores C { C with candidates := value :: C.candidates, accepts := C.accepts + 1 } (.backtrack none)
  | overfull {value : ν} : P.limits.maxCandidates < C.accepts + 1 →
      Scores C { C with candidates := value :: C.candidates, accepts := C.accepts + 1 }
        (.stop (.candidateLimit P.limits.maxCandidates))

lemma Scores.proceed (C : Tally ν κ) : P.Scores C C .proceed := .kept fun _ h => by cases h

lemma Scores.lost (C : Tally ν κ) (reason : Option ε) : P.Scores C C (.backtrack reason) := .kept fun _ h => by cases h

lemma Scores.failed (C : Tally ν κ) {failure : Failure ε} (h : ∀ limit, failure ≠ .candidateLimit limit) :
    P.Scores C C (.stop failure) :=
  .kept fun limit he => h limit (Verdict.stop.inj he)

@[simp]
lemma tally_note (S : State ν κ ε δ) (e : Event ε) : (P.note S e).tally = S.tally := by
  rw [note]
  split <;> rfl

@[simp]
lemma tally_reject (S : State ν κ ε δ) (reason : Option ε) : (P.reject S reason).tally = S.tally := by
  cases reason with
  | none => rfl
  | some e => exact tally_note _ _

@[simp]
lemma tally_counted (S : State ν κ ε δ) : S.counted.tally = S.tally := rfl

lemma shift_scores (S : State ν κ ε δ) (token : τ) (last target : Nat) :
    P.Scores S.tally (P.shift S token last target).1.tally (P.shift S token last target).2 := by
  rw [shift]
  dsimp only
  split
  · exact .lost _ _
  · split
    · exact .lost _ _
    · have hn := tally_note (P := P) S (.shift S.path.position ((P.builder.terminal token).getD 0) target)
      exact hn ▸ .proceed _

lemma reduce_scores (S : State ν κ ε δ) (index : Nat) :
    P.Scores S.tally (P.reduce S index).1.tally (P.reduce S index).2 := by
  rw [reduce]
  split
  · exact .lost _ _
  · dsimp only
    split
    · split
      · exact .failed _ fun _ h => by cases h
      · rename_i target _
        split
        · exact .failed _ fun _ h => by cases h
        · exact .lost _ _
        · have hn := tally_note (P := P) S (.reduce S.path.position index target)
          exact hn ▸ .proceed _
    · exact .lost _ _

lemma accept_scores (S : State ν κ ε δ) : P.Scores S.tally (P.accept S).1.tally (P.accept S).2 := by
  rw [accept]
  split
  · exact .lost _ _
  · dsimp only
    split
    · rename_i hlt
      rw [tally_note]
      exact .overfull hlt
    · rename_i hle
      rw [tally_note]
      exact .accepted (Nat.not_lt.mp hle)

lemma act_scores (S : State ν κ ε δ) (token : τ) (last : Nat) (action : Action) :
    P.Scores S.tally (P.act S token last action).1.tally (P.act S token last action).2 := by
  cases action with
  | shift target => exact shift_scores S token last target
  | reduce index => exact reduce_scores S index
  | accept => exact accept_scores S

variable (P tokens) in
lemma step_cases (S : State ν κ ε δ) : (∃ reason, P.step tokens S = (S, .backtrack reason)) ∨
    ∃ state token action others, (P.options state token).drop S.choice = action :: others ∧
      P.step tokens S = P.act (if others.isEmpty then S else P.save S state (P.options state token).length) token
        (tokens.size - 1) action := by
  cases hs : S.path.states with
  | nil => exact Or.inl ⟨none, by rw [step, hs]⟩
  | cons state states =>
    cases ht : tokens[min S.path.position (tokens.size - 1)]? with
    | none => exact Or.inl ⟨none, by rw [step, hs, ht]⟩
    | some token =>
      rw [step_eq hs ht]
      cases hd : (P.options state token).drop S.choice with
      | nil => exact Or.inl ⟨_, rfl⟩
      | cons action others => exact Or.inr ⟨state, token, action, others, hd, rfl⟩

variable (P tokens) in
lemma step_counts (S : State ν κ ε δ) : ∃ C : Tally ν κ, C.candidates = S.candidates ∧
    C.accepts = S.stats.accepts ∧ P.Scores C (P.step tokens S).1.tally (P.step tokens S).2 := by
  rcases P.step_cases tokens S with ⟨reason, hs⟩ | ⟨state, token, action, others, _, hs⟩
  · rw [hs]
    exact ⟨S.tally, rfl, rfl, .lost _ _⟩
  · rw [hs]
    refine ⟨_, ?_, ?_, act_scores _ token _ action⟩
    all_goals
      split
      · rfl
      · rw [save, tally_note]
        rfl

lemma resume?_counts {S U : State ν κ ε δ} (h : P.resume? S = some U) :
    U.candidates = S.candidates ∧ U.stats.accepts = S.stats.accepts := by
  rw [resume?] at h
  split at h
  · cases h
  · obtain rfl := Option.some.inj h
    exact ⟨congrArg Tally.candidates (tally_note _ _), congrArg Tally.accepts (tally_note _ _)⟩

end Parser

end Ramify.Search
