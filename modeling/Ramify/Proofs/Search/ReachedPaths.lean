import Ramify.Proofs.Search.Simulation

namespace Ramify.Search.Parser

variable {τ ν ν' κ ε δ : Type} {P : Parser τ ν κ ε δ} {tokens : Array τ} {S S₁ T : State ν κ ε δ} {fuel : Nat}
  {token : τ} {actions others : List Action} {action : Action} {v : Verdict ε}

lemma Performs.pending_eq {C D : Core ν κ ε δ} {made : δ × Move ν κ ε} (h : P.Performs C made D v)
    (hv : ∀ failure, v ≠ .stop failure) : D.pending = C.pending := by
  cases h with
  | next => rfl
  | rejected => rfl
  | accepted => rfl
  | overfull => exact absurd rfl (hv _)
  | stopped => exact absurd rfl (hv _)

lemma Took.pending_subset {D : Core ν κ ε δ} (h : P.Took tokens S D v) (hv : ∀ failure, v ≠ .stop failure) :
    S.core.pending ⊆ D.pending := by
  cases h with
  | lost => exact List.Subset.refl _
  | empty => exact List.Subset.refl _
  | exhausted => exact List.Subset.refl _
  | acted hc hd hm =>
    rw [hm.pending_eq hv]
    change S.core.pending ⊆ S.mark _
    rw [State.mark]
    split
    · exact List.Subset.refl _
    · exact List.subset_cons_self _ _

section Resumed

variable {c : Path ν κ × Nat}

lemma exists_resumed_of_step
    (hrest : ∀ S, P.run tokens fuel S = (T, none) → c ∈ S.core.pending → ∃ U, P.Reaches tokens S U ∧ (U.path, U.choice) = c)
    (hrun : P.run tokens (fuel + 1) S = (T, none)) (hs : P.step tokens S.counted = (S₁, v)) (hc : c ∈ S₁.core.pending) :
    ∃ U, P.Reaches tokens S U ∧ (U.path, U.choice) = c := by
  rw [run_succ, hs] at hrun
  cases v with
  | stop failure => cases hrun
  | proceed =>
    obtain ⟨U, hU, he⟩ := hrest _ hrun hc
    exact ⟨U, (Reaches.refl.proceed hs).trans hU, he⟩
  | backtrack reason =>
    dsimp only at hrun
    have hcore := congrArg Core.pending (core_reject (P := P) S₁ reason)
    rcases resume?_cases (P := P) (P.reject S₁ reason) with ⟨_, hnil⟩ | ⟨U, hr, hpending, _⟩
    · rw [hcore] at hnil
      exact absurd hc (hnil ▸ List.not_mem_nil)
    · rw [hr] at hrun
      have hU : P.Reaches tokens S U := Reaches.refl.resume hs hr
      rw [hcore] at hpending
      rcases List.mem_cons.mp (hpending ▸ hc) with rfl | hmem
      · exact ⟨U, hU, rfl⟩
      · obtain ⟨V, hV, he⟩ := hrest U hrun hmem
        exact ⟨V, hU.trans hV, he⟩

lemma exists_resumed (hrun : P.run tokens fuel S = (T, none)) (hc : c ∈ S.core.pending) :
    ∃ U, P.Reaches tokens S U ∧ (U.path, U.choice) = c := by
  induction fuel generalizing S with
  | zero => cases hrun
  | succ fuel ih =>
    have ht := P.step_took tokens S.counted
    generalize hs : P.step tokens S.counted = r at ht
    obtain ⟨S₁, v⟩ := r
    refine exists_resumed_of_step (fun _ => ih) hrun hs (ht.pending_subset ?_ hc)
    rintro failure rfl
    rw [run_succ, hs] at hrun
    cases hrun

end Resumed

section Ended

variable {U : State ν κ ε δ} (hrun : P.run tokens fuel S = (T, none))

include hrun

lemma exists_next_choice (hc : P.cell tokens S.path = some (token, actions)) (hlt : S.choice + 1 < actions.length) :
    ∃ U, P.Reaches tokens S U ∧ U.path = S.path ∧ U.choice = S.choice + 1 := by
  have hd : actions.drop S.choice = _ :: actions.drop (S.choice + 1) := List.drop_eq_getElem_cons (by omega)
  have hothers : (actions.drop (S.choice + 1)).isEmpty = false := by
    rw [List.isEmpty_eq_false_iff, Ne, List.drop_eq_nil_iff]
    omega
  cases fuel with
  | zero => cases hrun
  | succ fuel =>
    have ht := P.step_took tokens S.counted
    generalize hs : P.step tokens S.counted = r at ht
    obtain ⟨S₁, v⟩ := r
    have hpending : S₁.core.pending = S.mark (actions.drop (S.choice + 1)) := by
      refine (ht.performs hc hd).pending_eq ?_
      rintro failure rfl
      rw [run_succ, hs] at hrun
      cases hrun
    rw [State.mark, hothers, if_neg Bool.false_ne_true] at hpending
    have hmem : (S.path, S.choice + 1) ∈ S₁.core.pending := hpending ▸ List.mem_cons_self
    obtain ⟨U, hU, he⟩ := exists_resumed_of_step (fun _ => exists_resumed) hrun hs hmem
    obtain ⟨hpath, hchoice⟩ := Prod.mk.inj he
    exact ⟨U, hU, hpath, hchoice⟩

lemma exists_choice (hc : P.cell tokens S.path = some (token, actions)) {i : Nat} (hle : S.choice ≤ i)
    (hlt : i < actions.length) : ∃ U, P.Reaches tokens S U ∧ U.path = S.path ∧ U.choice = i := by
  induction i, hle using Nat.le_induction with
  | base => exact ⟨S, .refl, rfl, rfl⟩
  | succ i _ ih =>
    obtain ⟨U, hU, hpath, rfl⟩ := ih (Nat.lt_of_succ_lt hlt)
    obtain ⟨_, hrest⟩ := hU.run hrun
    obtain ⟨V, hV, hpath', hchoice⟩ := exists_next_choice hrest (hpath ▸ hc) hlt
    exact ⟨V, hU.trans hV, hpath'.trans hpath, hchoice⟩

end Ended

lemma exists_followed {store : δ} {p : Path ν κ} (h : P.Chooses tokens S token action)
    (hm : P.move tokens S.store S.path token action = (store, .next p)) :
    ∃ U, P.Reaches tokens S U ∧ U.path = p ∧ U.choice = 0 ∧ U.store = store := by
  obtain ⟨actions, hc, hget⟩ := h
  obtain ⟨hlt, rfl⟩ := List.getElem?_eq_some_iff.mp hget
  have ht := P.step_took tokens S.counted
  generalize hs : P.step tokens S.counted = r at ht
  obtain ⟨S₁, v⟩ := r
  have hperforms := ht.performs (S := S.counted) hc (List.drop_eq_getElem_cons hlt)
  generalize hD : S₁.core = D at hperforms
  change P.Performs _ (P.move tokens S.store S.path token actions[S.choice]) _ _ at hperforms
  rw [hm] at hperforms
  cases hperforms with
  | next =>
    refine ⟨_, Reaches.refl.proceed hs, ?_, rfl, ?_⟩
    · exact congrArg Core.path hD
    · exact congrArg Core.store hD

theorem Mirrors.exists_reached {Q : Parser τ ν' κ ε Unit} {View : δ → ν → ν' → Prop} (h : Q.Mirrors P View) {store : δ}
    (hrun : P.run tokens fuel (P.start store) = (T, none)) {q : Path ν' κ}
    (hq : Relation.ReflTransGen (Q.MovesTo tokens) (Q.start ()).path q) :
    ∃ S, P.Reaches tokens (P.start store) S ∧ S.choice = 0 ∧ S.path.Views (View S.store) q := by
  induction hq with
  | refl => exact ⟨_, .refl, rfl, rfl, rfl, h.builder.initial_eq, .nil⟩
  | @tail q q' _ hmoves ih =>
    obtain ⟨S, hS, hchoice, hviews⟩ := ih
    obtain ⟨token, actions, action, _, _, hc, ha, hm⟩ := hmoves
    obtain ⟨i, hlt, rfl⟩ := List.mem_iff_getElem.mp ha
    obtain ⟨_, hrest⟩ := hS.run hrun
    obtain ⟨U, hU, hpath, hi⟩ := exists_choice hrest ((h.cell_eq hviews).symm.trans hc) (hchoice.symm ▸ Nat.zero_le i) hlt
    -- What is on the stack of the path still stands for the same when the search comes back to it.
    have hviews' : U.path.Views (View U.store) q := by
      rw [hpath]
      refine hviews.mono fun v v' hv => ?_
      refine hU.shared_invariant (I := fun s _ => View s v v') (fun _ _ hs _ => h.move_view _ _ hs) ?_ (fun _ _ => hv)
        U.path List.mem_cons_self
      intro s s' p p' token actions action hs _ _ hm'
      have hview : View (P.move tokens s p token action).1 v v' := h.move_view token action hs
      rwa [hm'] at hview
    have hc' : P.cell tokens U.path = some (token, actions) := (h.cell_eq hviews').symm.trans hc
    rcases hmade : P.move tokens U.store U.path token actions[i] with ⟨store', m⟩
    obtain ⟨⟨m', hm', hmove⟩, _⟩ := h.of_move hviews' hmade
    obtain rfl := (Prod.mk.inj (hm.symm.trans hm')).2
    cases hmove with
    | next hviews'' =>
      obtain ⟨V, hV, rfl, hzero, rfl⟩ := exists_followed ⟨actions, hc', hi ▸ List.getElem?_eq_getElem hlt⟩ hmade
      exact ⟨V, (hS.trans hU).trans hV, hzero, hviews''⟩

end Ramify.Search.Parser
