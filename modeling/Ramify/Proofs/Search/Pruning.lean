import Ramify.Proofs.Search.PlainSearch
import Ramify.Proofs.Search.Tallies

/-! Searches with fewer choices. A search with checkpoints works through an agenda of paths, from
each of which some actions remain. If another search has a part of the actions in its
cells and rejects more, then its agenda stays a part of that of the first, step by step;
where the first takes a step for an action that the other lacks, the other waits. So it finds
a part of what the first finds, in the same order and with no more steps. -/

namespace Ramify

structure Table.Prunes (T U : Table) : Prop where
  productions_eq : T.productions = U.productions
  gotos_eq : T.gotos = U.gotos
  sublist : ∀ s t, (T.actionsAt s t).Sublist (U.actionsAt s t)
  nonempty : ∀ s t, U.actionsAt s t ≠ [] → T.actionsAt s t ≠ []

/-- `B` answers as `L` does, or rejects; the answers of both depend on nothing but the context and
the arguments. -/
structure Builder.Stricter {τ ν κ ε δ δ' : Type} (B : Builder τ ν κ ε δ') (L : Builder τ ν κ ε δ)
    (productions : Array Production) : Prop where
  pure : B.Pure
  loose : L.Pure
  terminal_eq : B.terminal = L.terminal
  initial_eq : B.initial = L.initial
  shift : ∀ s s' c token position, (B.shift s' c token position).2 = (L.shift s c token position).2 ∨
    ∃ e, (B.shift s' c token position).2 = .error e
  reduce : ∀ s s' c p (children : List ν), p ∈ productions → children.length = p.rhs.length →
    (B.reduce s' c p children).2 = (L.reduce s c p children).2 ∨ ∃ e, (B.reduce s' c p children).2 = .error (.reject e)

lemma Builder.Pure.stricter {τ ν κ ε δ : Type} {B : Builder τ ν κ ε δ} (h : B.Pure)
    (productions : Array Production) : B.Stricter B productions :=
  ⟨h, h, rfl, rfl, fun s s' c token position => Or.inl (h.shift_eq s' s c token position),
    fun s s' c p children _ _ => Or.inl (h.reduce_eq s' s c p children)⟩

namespace Search

variable {τ ν κ ε δ δ' : Type}

/-- The second outcome is a part of the first, when the first is one of a search that ended of
itself. -/
structure Narrows (r r' : Except (Failure ε) (List ν)) : Prop where
  ok : ∀ found, r = .ok found →
    (∃ found', r' = .ok found' ∧ found'.Sublist found) ∨ ∃ e, r' = .error (.noParse e)
  noParse : ∀ e, r = .error (.noParse e) → ∃ e', r' = .error (.noParse e')

def Move.agenda : Move ν κ ε → List (Path ν κ × Nat) → List (Path ν κ × Nat)
  | .next q, rest => (q, 0) :: rest
  | .accepted _, rest | .rejected _, rest | .stop _, rest => rest

def Move.found : Move ν κ ε → List ν → List ν
  | .accepted value, candidates => value :: candidates
  | .next _, candidates | .rejected _, candidates | .stop _, candidates => candidates

def later (p : Path ν κ) (k : Nat) (others : List Action) (rest : List (Path ν κ × Nat)) :
    List (Path ν κ × Nat) :=
  if others.isEmpty then rest else (p, k + 1) :: rest

lemma sublist_later {R : Path ν κ × Nat → Path ν κ × Nat → Prop} {A rest : List (Path ν κ × Nat)}
    (h : List.SublistForall₂ R A rest) (p : Path ν κ) (k : Nat) (others : List Action) :
    List.SublistForall₂ R A (later p k others rest) := by
  rw [later]
  split
  · exact h
  · exact .cons_right h

lemma Move.sublist_agenda {R : Path ν κ × Nat → Path ν κ × Nat → Prop} {A rest : List (Path ν κ × Nat)}
    (h : List.SublistForall₂ R A rest) (m : Move ν κ ε) : List.SublistForall₂ R A (m.agenda rest) := by
  cases m with
  | next q => exact .cons_right h
  | accepted _ | rejected _ | stop _ => exact h

lemma Move.sublist_found {c d : List ν} (h : d.Sublist c) (m : Move ν κ ε) : d.Sublist (m.found c) := by
  cases m with
  | accepted value => exact h.cons value
  | next _ | rejected _ | stop _ => exact h

lemma Move.found_sublist {c d : List ν} (h : d.Sublist c) (m : Move ν κ ε) : (m.found d).Sublist (m.found c) := by
  cases m with
  | accepted value => exact h.cons_cons value
  | next _ | rejected _ | stop _ => exact h

namespace Parser

structure Prunes (Q : Parser τ ν κ ε δ') (P : Parser τ ν κ ε δ) : Prop where
  table : Q.table.Prunes P.table
  builder : Q.builder.Stricter P.builder P.table.productions
  limits_eq : Q.limits = P.limits

variable (P : Parser τ ν κ ε δ) (tokens : Array τ)

def remaining (p : Path ν κ) (k : Nat) : List Action := ((P.cell tokens p).elim [] Prod.snd).drop k

/-- In at most `n` steps the agenda is worked off, and the candidates grow from the first to the
second. -/
inductive Clears (store : δ) : Nat → List (Path ν κ × Nat) → List ν → List ν → Prop
  | done {n : Nat} {candidates : List ν} : Clears store n [] candidates candidates
  | ended {n k : Nat} {p : Path ν κ} {rest : List (Path ν κ × Nat)} {candidates found : List ν} :
      P.remaining tokens p k = [] → Clears store n rest candidates found →
      Clears store (n + 1) ((p, k) :: rest) candidates found
  | acted {n k : Nat} {p : Path ν κ} {token : τ} {actions others : List Action} {action : Action}
      {m : Move ν κ ε} {rest : List (Path ν κ × Nat)} {candidates found : List ν} :
      P.cell tokens p = some (token, actions) → actions.drop k = action :: others →
      (P.move tokens store p token action).2 = m → (∀ failure, m ≠ .stop failure) →
      Clears store n (m.agenda (later p k others rest)) (m.found candidates) found →
      Clears store (n + 1) ((p, k) :: rest) candidates found

variable {P tokens} {store : δ} {S T : State ν κ ε δ} {n k : Nat} {p : Path ν κ} {token : τ}
  {actions others : List Action} {action : Action} {rest agenda : List (Path ν κ × Nat)} {candidates found : List ν}

lemma remaining_eq (hc : P.cell tokens p = some (token, actions)) : P.remaining tokens p k = actions.drop k := by
  rw [remaining, hc]
  rfl

lemma remaining_of_lost (hc : P.cell tokens p = none) : P.remaining tokens p k = [] := by
  rw [remaining, hc]
  exact List.drop_nil

lemma Clears.mono (h : P.Clears tokens store n agenda candidates found) :
    P.Clears tokens store (n + 1) agenda candidates found := by
  induction h with
  | done => exact .done
  | ended hr _ ih => exact .ended hr ih
  | acted hc hd hm hs _ ih => exact .acted hc hd hm hs ih

lemma Scores.counted {C D : Tally ν κ} {v : Verdict ε} (h : P.Scores C D v)
    (hC : C.accepts = C.candidates.length) : D.accepts = D.candidates.length := by
  cases h with
  | kept => exact hC
  | accepted => exact congrArg (· + 1) hC
  | overfull => exact congrArg (· + 1) hC

lemma Clears.length_le (h : P.Clears tokens store n agenda candidates found) : candidates.length ≤ found.length := by
  induction h with
  | done => exact le_rfl
  | ended _ _ ih => exact ih
  | @acted _ _ _ _ _ _ _ m _ _ _ _ _ _ _ _ ih =>
    cases m with
    | accepted value => exact (Nat.le_succ _).trans ih
    | next q => exact ih
    | rejected reason => exact ih
    | stop failure => exact ih

/-! The agenda of a search: a state stands for its path and for those it can return to. -/

lemma clears_of_backtrack {S₁ E : State ν κ ε δ} {reason : Option ε}
    (ih : ∀ U, P.run tokens n U = (E, none) →
      P.Clears tokens store n ((U.path, U.choice) :: U.core.pending) U.candidates E.candidates)
    (h : (match P.resume? (P.reject S₁ reason) with
      | some U => P.run tokens n U
      | none => (P.reject S₁ reason, none)) = (E, none)) :
    P.Clears tokens store n S₁.core.pending S₁.core.candidates E.candidates := by
  have hcore := core_reject (P := P) S₁ reason
  have hc : (P.reject S₁ reason).candidates = S₁.core.candidates := congrArg Core.candidates hcore
  have hp : (P.reject S₁ reason).core.pending = S₁.core.pending := by rw [hcore]
  rcases resume?_cases (P := P) (P.reject S₁ reason) with ⟨hr, hpend⟩ | ⟨U, hr, hpend, hcand, _, _⟩
  · rw [hr] at h
    obtain rfl : P.reject S₁ reason = E := congrArg Prod.fst h
    rw [← hp, hpend, hc]
    exact .done
  · rw [hr] at h
    have hh := ih U h
    rwa [← hpend, hp, hcand, hc] at hh

lemma run_clears (hP : P.builder.Pure) (store : δ) {E : State ν κ ε δ} (h : P.run tokens n S = (E, none)) :
    P.Clears tokens store n ((S.path, S.choice) :: S.core.pending) S.candidates E.candidates := by
  induction n generalizing S with
  | zero => cases h
  | succ n ih =>
    rw [run_succ] at h
    have ht := P.step_took tokens S.counted
    generalize P.step tokens S.counted = r at h ht
    obtain ⟨S₁, v⟩ := r
    dsimp only at h ht
    generalize hC : S₁.core = C at ht
    cases ht with
    | lost hc =>
      have hh := clears_of_backtrack (fun _ hU => ih hU) h
      rw [hC] at hh
      exact .ended (remaining_of_lost hc) hh
    | empty hc =>
      have hh := clears_of_backtrack (fun _ hU => ih hU) h
      rw [hC] at hh
      exact .ended ((remaining_eq hc).trans List.drop_nil) hh
    | exhausted hc hd _ =>
      have hh := clears_of_backtrack (fun _ hU => ih hU) h
      rw [hC] at hh
      exact .ended ((remaining_eq hc).trans hd) hh
    | @acted token _ _ action _ _ hc hd hm =>
      have hmove : (P.move tokens store S.path token action).2 = (P.move tokens S.store S.path token action).2 :=
        move_pure hP store S.store S.path token action
      change P.Performs _ (P.move tokens S.store S.path token action) _ _ at hm
      generalize P.move tokens S.store S.path token action = r at hm hmove
      cases hm with
      | next =>
        have hh : P.Clears tokens store n ((S₁.core.path, 0) :: S₁.core.pending) S₁.core.candidates E.candidates := ih h
        rw [hC] at hh
        exact .acted hc hd hmove nofun hh
      | rejected | accepted =>
        have hh := clears_of_backtrack (fun _ hU => ih hU) h
        rw [hC] at hh
        exact .acted hc hd hmove nofun hh
      | overfull => cases h
      | stopped => cases h

lemma run_within {E : State ν κ ε δ} (h : P.run tokens n S = (E, none))
    (hcount : S.stats.accepts = S.candidates.length) (hle : S.candidates.length ≤ P.limits.maxCandidates) :
    E.candidates.length ≤ P.limits.maxCandidates := by
  induction n generalizing S with
  | zero => cases h
  | succ n ih =>
    rw [run_succ] at h
    obtain ⟨C, hcand, haccepts, hscores⟩ := P.step_counts tokens S.counted
    have hC : C.accepts = C.candidates.length := by
      rw [hcand, haccepts]
      exact hcount
    have hcounted := hscores.counted hC
    generalize P.step tokens S.counted = r at h hscores hcounted
    obtain ⟨S₁, v⟩ := r
    dsimp only at h hscores hcounted
    have hwithin : (∀ failure, v ≠ .stop failure) → S₁.tally.candidates.length ≤ P.limits.maxCandidates := by
      intro hv
      generalize S₁.tally = D at hscores
      cases hscores with
      | kept => exact hcand ▸ hle
      | accepted hlt => exact hC ▸ hlt
      | overfull => exact absurd rfl (hv _)
    cases v with
    | stop failure => cases h
    | proceed => exact ih h hcounted (hwithin nofun)
    | backtrack reason =>
      dsimp only at h
      have hr := tally_reject (P := P) S₁ reason
      cases hres : P.resume? (P.reject S₁ reason) with
      | none =>
        rw [hres] at h
        obtain rfl : P.reject S₁ reason = E := congrArg Prod.fst h
        rw [show (P.reject S₁ reason).candidates = S₁.candidates from congrArg Tally.candidates hr]
        exact hwithin nofun
      | some U =>
        rw [hres] at h
        obtain ⟨hc, ha⟩ := resume?_counts hres
        have hUc : U.candidates = S₁.candidates := hc.trans (congrArg Tally.candidates hr)
        have hUa : U.stats.accepts = S₁.stats.accepts := ha.trans (congrArg Tally.accepts hr)
        exact ih h (by rw [hUa, hUc]; exact hcounted) (by rw [hUc]; exact hwithin nofun)

lemma exists_run_of_backtrack {S₁ : State ν κ ε δ} {reason : Option ε}
    (h : P.Clears tokens store n S₁.core.pending S₁.candidates found)
    (hcount : S₁.stats.accepts = S₁.candidates.length)
    (ih : ∀ U, S₁.core.pending = (U.path, U.choice) :: U.core.pending → U.candidates = S₁.candidates →
      U.stats.accepts = U.candidates.length → ∃ E, P.run tokens n U = (E, none) ∧ E.candidates = found) :
    ∃ E, (match P.resume? (P.reject S₁ reason) with
      | some U => P.run tokens n U
      | none => (P.reject S₁ reason, none)) = (E, none) ∧ E.candidates = found := by
  have hcore := core_reject (P := P) S₁ reason
  have hr := tally_reject (P := P) S₁ reason
  have hp : (P.reject S₁ reason).core.pending = S₁.core.pending := by rw [hcore]
  rcases resume?_cases (P := P) (P.reject S₁ reason) with ⟨hres, hpend⟩ | ⟨U, hres, hpend, hcand, _, _⟩
  · rw [hres]
    rw [← hp, hpend] at h
    refine ⟨_, rfl, (congrArg Tally.candidates hr).trans ?_⟩
    cases h with
    | done => rfl
  · rw [hres]
    have hUc : U.candidates = S₁.candidates := hcand.trans (congrArg Tally.candidates hr)
    have hUa : U.stats.accepts = S₁.stats.accepts := (resume?_counts hres).2.trans (congrArg Tally.accepts hr)
    exact ih U (hp ▸ hpend) hUc (by rw [hUa, hUc]; exact hcount)

section Step

variable (hcount : S.stats.accepts = S.candidates.length)

include hcount

lemma exists_run_of_ended (hr : P.remaining tokens S.path S.choice = [])
    (hrest : P.Clears tokens store n S.core.pending S.candidates found)
    (ih : ∀ U, S.core.pending = (U.path, U.choice) :: U.core.pending → U.candidates = S.candidates →
      U.stats.accepts = U.candidates.length → ∃ E, P.run tokens n U = (E, none) ∧ E.candidates = found) :
    ∃ E, P.run tokens (n + 1) S = (E, none) ∧ E.candidates = found := by
  have ht := P.step_took tokens S.counted
  obtain ⟨C, hcand, haccepts, hscores⟩ := P.step_counts tokens S.counted
  have hcounted := hscores.counted (by rw [hcand, haccepts]; exact hcount)
  rw [run_succ]
  generalize P.step tokens S.counted = r at ht hcounted
  obtain ⟨S₁, v⟩ := r
  dsimp only at ht hcounted ⊢
  obtain ⟨reason, rfl, hcore⟩ : ∃ reason, v = .backtrack reason ∧ S₁.core = S.core := by
    generalize S₁.core = D at ht
    cases ht with
    | lost => exact ⟨_, rfl, rfl⟩
    | empty => exact ⟨_, rfl, rfl⟩
    | exhausted => exact ⟨_, rfl, rfl⟩
    | acted hc hd _ => cases ((remaining_eq hc).symm.trans hr).symm.trans hd
  have hsame : S₁.candidates = S.candidates := congrArg Core.candidates hcore
  refine exists_run_of_backtrack (by rwa [hcore, hsame]) hcounted fun U hU hUc hUa => ?_
  exact ih U (hcore ▸ hU) (hUc.trans hsame) hUa

lemma exists_run_of_acted {m : Move ν κ ε} (hP : P.builder.Pure) (hc : P.cell tokens S.path = some (token, actions))
    (hd : actions.drop S.choice = action :: others) (hm : (P.move tokens store S.path token action).2 = m)
    (hs : ∀ failure, m ≠ .stop failure)
    (hrest : P.Clears tokens store n (m.agenda (later S.path S.choice others S.core.pending)) (m.found S.candidates) found)
    (hmax : found.length ≤ P.limits.maxCandidates)
    (ih : ∀ U, m.agenda (later S.path S.choice others S.core.pending) = (U.path, U.choice) :: U.core.pending →
      U.candidates = m.found S.candidates → U.stats.accepts = U.candidates.length →
        ∃ E, P.run tokens n U = (E, none) ∧ E.candidates = found) :
    ∃ E, P.run tokens (n + 1) S = (E, none) ∧ E.candidates = found := by
  have hperforms := (P.step_took tokens S.counted).performs hc hd
  obtain ⟨C, hcand, haccepts, hscores⟩ := P.step_counts tokens S.counted
  have hcounted := hscores.counted (by rw [hcand, haccepts]; exact hcount)
  rw [run_succ]
  generalize P.step tokens S.counted = r at hperforms hcounted hscores
  obtain ⟨S₁, v⟩ := r
  dsimp only at hperforms hcounted hscores ⊢
  have hmove : (P.move tokens S.store S.path token action).2 = m :=
    (move_pure hP S.store store S.path token action).trans hm
  generalize hD : S₁.core = D at hperforms
  have hpend : S₁.core.pending = D.pending := congrArg Core.pending hD
  have hsame : S₁.candidates = D.candidates := congrArg Core.candidates hD
  change P.Performs _ (P.move tokens S.store S.path token action) D v at hperforms
  generalize P.move tokens S.store S.path token action = r at hperforms hmove
  cases hperforms with
  | next =>
    subst hmove
    refine ih { S₁ with choice := 0 } ?_ hsame hcounted
    change _ = (S₁.core.path, 0) :: S₁.core.pending
    rw [hD]
    rfl
  | rejected | accepted =>
    subst hmove
    refine exists_run_of_backtrack (by rw [hpend, hsame]; exact hrest) hcounted fun U hU hUc hUa => ?_
    exact ih U (hpend.symm.trans hU) (hUc.trans hsame) hUa
  | overfull =>
    -- What is found holds one more candidate, so there is room for it.
    subst hmove
    have hgrown : S.candidates.length + 1 ≤ _ := hrest.length_le
    generalize S₁.tally = D' at hscores
    cases hscores with
    | kept hv => exact absurd rfl (hv _)
    | overfull hlt =>
      rw [haccepts] at hlt
      have hcount' : S.counted.stats.accepts = S.candidates.length := hcount
      omega
  | stopped => exact absurd hmove.symm (hs _)

end Step

lemma Clears.run (hP : P.builder.Pure) (h : P.Clears tokens store n agenda candidates found)
    (hmax : found.length ≤ P.limits.maxCandidates) : ∀ S, agenda = (S.path, S.choice) :: S.core.pending →
      S.candidates = candidates → S.stats.accepts = S.candidates.length →
      ∃ E, P.run tokens n S = (E, none) ∧ E.candidates = found := by
  induction h with
  | done => exact nofun
  | ended hr hrest ih =>
    rintro S hS rfl hcount
    obtain ⟨hpath, rfl⟩ := List.cons.inj hS
    obtain ⟨rfl, rfl⟩ := Prod.mk.inj hpath
    exact exists_run_of_ended hcount hr hrest (ih hmax)
  | acted hc hd hm hs hrest ih =>
    rintro S hS rfl hcount
    obtain ⟨hpath, rfl⟩ := List.cons.inj hS
    obtain ⟨rfl, rfl⟩ := Prod.mk.inj hpath
    exact exists_run_of_acted hcount hP hc hd hm hs hrest hmax (ih hmax)

section Prunes

variable {Q : Parser τ ν κ ε δ'} {store' : δ'}

variable (Q P tokens) in
def Fewer (a b : Path ν κ × Nat) : Prop :=
  a.1 = b.1 ∧ (Q.remaining tokens a.1 a.2).Sublist (P.remaining tokens b.1 b.2)

lemma fewer_later {agenda' : List (Path ν κ × Nat)} {actions' others' : List Action} {k' : Nat}
    (hcP : P.cell tokens p = some (token, actions)) (hcQ : Q.cell tokens p = some (token, actions'))
    (hd : actions.drop k = action :: others) (hd' : actions'.drop k' = action :: others')
    (hsub : others'.Sublist others) (hrest : List.SublistForall₂ (Fewer P tokens Q) agenda' rest) :
    List.SublistForall₂ (Fewer P tokens Q) (later p k' others' agenda') (later p k others rest) := by
  cases others' with
  | nil => exact sublist_later hrest p k others
  | cons a as =>
    rw [later, later, List.isEmpty_eq_false_iff.mpr (List.ne_nil_of_mem (hsub.subset List.mem_cons_self))]
    refine .cons ⟨rfl, ?_⟩ hrest
    rwa [remaining_eq hcQ, remaining_eq hcP, drop_succ_of_drop hd, drop_succ_of_drop hd']

variable (h : Q.Prunes P)

include h

lemma Prunes.options_sublist (state : Nat) (token : τ) :
    (Q.options state token).Sublist (P.options state token) := by
  rw [options, options, h.builder.terminal_eq]
  cases P.builder.terminal token with
  | none => exact List.Sublist.refl _
  | some t => exact h.table.sublist state t

variable (tokens) in
lemma Prunes.cell (p : Path ν κ) : P.cell tokens p = none ∧ Q.cell tokens p = none ∨ ∃ token actions actions',
    P.cell tokens p = some (token, actions) ∧ Q.cell tokens p = some (token, actions') ∧ actions'.Sublist actions := by
  rw [Parser.cell, Parser.cell]
  split
  · exact Or.inr ⟨_, _, _, rfl, rfl, h.options_sublist _ _⟩
  · exact Or.inl ⟨rfl, rfl⟩

lemma Prunes.fewer (p : Path ν κ) : Fewer P tokens Q (p, 0) (p, 0) := by
  refine ⟨rfl, ?_⟩
  rcases h.cell tokens p with ⟨hP, hQ⟩ | ⟨token, actions, actions', hP, hQ, hsub⟩
  · rw [remaining_of_lost hP, remaining_of_lost hQ]
  · rwa [remaining_eq hP, remaining_eq hQ]

variable (tokens store store') in
lemma Prunes.move (p : Path ν κ) (token : τ) (action : Action) :
    (Q.move tokens store' p token action).2 = (P.move tokens store p token action).2 ∨
      ∃ reason, (Q.move tokens store' p token action).2 = .rejected reason := by
  cases action with
  | shift target =>
    rw [Parser.move, Parser.move, shiftMove, shiftMove]
    split
    · exact Or.inr ⟨_, rfl⟩
    · rcases h.builder.shift store store' p.context token p.position with heq | ⟨e, he⟩
      · exact Or.inl (congrArg (p.shifted target) heq)
      · exact Or.inr ⟨some e, congrArg (p.shifted target) he⟩
  | reduce index =>
    rw [Parser.move, Parser.move, reduceMove, reduceMove, h.table.productions_eq]
    cases hp : P.table.productions[index]? with
    | none => exact Or.inl rfl
    | some production =>
      dsimp only
      split
      · exact Or.inl rfl
      · split
        · exact Or.inl rfl
        · rename_i hlen
          rw [show Q.table.goto? = P.table.goto? by funext s n; rw [Table.goto?, Table.goto?, h.table.gotos_eq]]
          split
          · exact Or.inl rfl
          · rename_i target _
            have hchildren : (p.values.take production.rhs.length).reverse.length = production.rhs.length := by
              rw [List.length_reverse, List.length_take_of_le (Nat.not_lt.mp hlen)]
            rcases h.builder.reduce store store' p.context production _ (Array.mem_of_getElem? hp) hchildren with
              heq | ⟨e, he⟩
            · exact Or.inl (congrArg (p.reduced index _ target) heq)
            · exact Or.inr ⟨some e, congrArg (p.reduced index _ target) he⟩
  | accept =>
    rw [Parser.move, Parser.move]
    cases p.values with
    | nil => exact Or.inl rfl
    | cons value values => exact Or.inl rfl

lemma Prunes.fewer_agenda {A A' : List (Path ν κ × Nat)} (hA : List.SublistForall₂ (Fewer P tokens Q) A' A)
    (m : Move ν κ ε) : List.SublistForall₂ (Fewer P tokens Q) (m.agenda A') (m.agenda A) := by
  cases m with
  | next q => exact .cons (h.fewer q) hA
  | accepted _ | rejected _ | stop _ => exact hA

variable (store') in
lemma Clears.prune (hc : P.Clears tokens store n agenda candidates found) :
    ∀ {agenda' : List (Path ν κ × Nat)} {candidates' : List ν},
      List.SublistForall₂ (Fewer P tokens Q) agenda' agenda → candidates'.Sublist candidates →
      ∃ found', Q.Clears tokens store' n agenda' candidates' found' ∧ found'.Sublist found := by
  induction hc with
  | done =>
    intro agenda' candidates' hagenda hcand
    cases hagenda with
    | nil => exact ⟨_, .done, hcand⟩
  | ended hr _ ih =>
    intro agenda' candidates' hagenda hcand
    cases hagenda with
    | nil =>
      obtain ⟨found', hfound, hsub⟩ := ih .nil hcand
      exact ⟨found', hfound.mono, hsub⟩
    | cons_right hrest =>
      obtain ⟨found', hfound, hsub⟩ := ih hrest hcand
      exact ⟨found', hfound.mono, hsub⟩
    | @cons a _ _ _ hfewer hrest =>
      obtain ⟨found', hfound, hsub⟩ := ih hrest hcand
      exact ⟨found', .ended (List.sublist_nil.mp (hr ▸ hfewer.2)) hfound, hsub⟩
  | @acted n k p token actions others action m rest candidates found hc hd hm hs _ ih =>
    intro agenda' candidates' hagenda hcand
    -- An action that the pruned search does not take costs the other a step.
    have hwait : ∀ {A}, List.SublistForall₂ (Fewer P tokens Q) A rest →
        ∃ found', Q.Clears tokens store' n A candidates' found' ∧ found'.Sublist found := fun hA =>
      ih (m.sublist_agenda (sublist_later hA p k others)) (m.sublist_found hcand)
    cases hagenda with
    | nil =>
      obtain ⟨found', hfound, hsub⟩ := hwait .nil
      exact ⟨found', hfound.mono, hsub⟩
    | cons_right hrest =>
      obtain ⟨found', hfound, hsub⟩ := hwait hrest
      exact ⟨found', hfound.mono, hsub⟩
    | @cons a _ agenda' _ hfewer hrest =>
      obtain ⟨q, k'⟩ := a
      obtain ⟨rfl, hsub⟩ : q = p ∧ _ := hfewer
      rcases h.cell tokens q with ⟨hP, _⟩ | ⟨token', _, actions', hP, hQ, _⟩
      · cases hc.symm.trans hP
      cases hc.symm.trans hP
      rw [remaining_eq hQ, remaining_eq hc, hd] at hsub
      cases hd' : actions'.drop k' with
      | nil =>
        obtain ⟨found', hfound, hsub⟩ := hwait hrest
        exact ⟨found', .ended ((remaining_eq hQ).trans hd') hfound, hsub⟩
      | cons action' others' =>
        rw [hd'] at hsub
        cases hsub with
        | cons _ hothers =>
          have hlater : List.SublistForall₂ (Fewer P tokens Q) ((q, k') :: agenda') (later q k others rest) := by
            rw [later, List.isEmpty_eq_false_iff.mpr (List.ne_nil_of_mem (hothers.subset List.mem_cons_self))]
            refine .cons ⟨rfl, ?_⟩ hrest
            rwa [remaining_eq hQ, remaining_eq hc, hd', drop_succ_of_drop hd]
          obtain ⟨found', hfound, hsub⟩ := ih (m.sublist_agenda hlater) (m.sublist_found hcand)
          exact ⟨found', hfound.mono, hsub⟩
        | cons_cons _ hothers =>
          have hlater := fewer_later hc hQ hd hd' hothers hrest
          rcases h.move tokens store store' q token action with hsame | ⟨reason, hreject⟩
          · obtain ⟨found', hfound, hsub⟩ := ih (h.fewer_agenda hlater m) (m.found_sublist hcand)
            exact ⟨found', .acted hQ hd' (hsame.trans hm) hs hfound, hsub⟩
          · obtain ⟨found', hfound, hsub⟩ := ih (m.sublist_agenda hlater) (m.sublist_found hcand)
            exact ⟨found', .acted hQ hd' hreject nofun hfound, hsub⟩

variable (store') in
lemma Prunes.run {E : State ν κ ε δ} (hrun : P.run tokens n (P.start store) = (E, none)) :
    ∃ E', Q.run tokens n (Q.start store') = (E', none) ∧ E'.candidates.Sublist E.candidates := by
  have hagenda : List.SublistForall₂ (Fewer P tokens Q) [((Q.start store').path, 0)] [((P.start store).path, 0)] := by
    refine .cons ?_ .nil
    rw [start, start, h.builder.initial_eq]
    exact h.fewer _
  have hclears := run_clears h.builder.loose store hrun
  obtain ⟨found, hfound, hsub⟩ := hclears.prune store' h hagenda (List.Sublist.refl _)
  have hmax : found.length ≤ Q.limits.maxCandidates := by
    rw [h.limits_eq]
    exact hsub.length_le.trans (run_within hrun rfl (Nat.zero_le _))
  obtain ⟨E', hrun', rfl⟩ := hfound.run h.builder.pure hmax (Q.start store') rfl rfl rfl
  exact ⟨E', hrun', hsub⟩

variable (tokens) in
lemma Prunes.narrows (before before' : Stats) (store : δ) (store' : δ') :
    Narrows (P.parse before store tokens).result (Q.parse before' store' tokens).result := by
  by_cases hne : tokens = #[]
  · subst hne
    exact ⟨nofun, nofun⟩
  rcases parse_result (P := P) before store hne with ⟨_, failure, hT, hr⟩ | ⟨T, hT, hr, _⟩
  · rw [hr]
    exact ⟨nofun, fun e he => absurd (Except.error.inj he) (run_ne_noParse hT e)⟩
  obtain ⟨T', hT', hsub⟩ := h.run store' hT
  rw [← h.limits_eq] at hT'
  have hr' : (Q.parse before' store' tokens).result = Q.conclude tokens T' := by
    rcases parse_result (P := Q) before' store' hne with ⟨_, _, hT'', _⟩ | ⟨_, hT'', hr', _⟩
    · cases hT'.symm.trans hT''
    · cases hT'.symm.trans hT''
      exact hr'
  rw [hr, hr']
  rcases Q.conclude_of_ne hne T' with ⟨hsome', hk'⟩ | ⟨_, e, hk'⟩
  · rw [hk']
    rcases P.conclude_of_ne hne T with ⟨_, hk⟩ | ⟨hnil, _⟩
    · rw [hk]
      refine ⟨fun found hfound => Or.inl ⟨_, rfl, ?_⟩, nofun⟩
      exact Except.ok.inj hfound ▸ hsub.reverse
    · exact absurd (List.sublist_nil.mp (hnil ▸ hsub)) hsome'
  · rw [hk']
    exact ⟨fun _ _ => Or.inr ⟨e, rfl⟩, fun _ _ => ⟨e, rfl⟩⟩

end Prunes

end Parser

end Search

end Ramify
