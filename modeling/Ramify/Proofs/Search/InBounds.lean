import Ramify.Proofs.Search.Explore
import Ramify.Proofs.Table.Validation

namespace Ramify

namespace Search

variable {τ ν κ ε δ : Type}

structure Path.InBounds (T : Table) (size : Nat) (p : Path ν κ) : Prop where
  position_lt : p.position < size
  length_eq : p.states.length = p.values.length + 1
  states : ∃ above, p.states = above ++ [0] ∧ ∀ s ∈ above, s < T.stateCount

namespace Parser

variable {P : Parser τ ν κ ε δ} {tokens : Array τ} {S : State ν κ ε δ} {p q : Path ν κ}

section Moves

variable (hT : P.table.InRange)

include hT

lemma options_inRange {state : Nat} {token : τ} {a : Action} (ha : a ∈ P.options state token) :
    P.table.ActionInRange a := by
  rw [options] at ha
  split at ha
  · exact hT.actionsAt ha
  · cases ha

omit hT in
lemma InBounds.exists_cell (h : p.InBounds P.table tokens.size) :
    ∃ state states token, p.states = state :: states ∧ tokens[p.position]? = some token ∧
      P.cell tokens p = some (token, P.options state token) := by
  have htoken := Array.getElem?_eq_getElem h.position_lt
  have hmin : min p.position (tokens.size - 1) = p.position := Nat.min_eq_left (Nat.le_sub_one_of_lt h.position_lt)
  cases hs : p.states with
  | nil => exact absurd (hs ▸ h.length_eq) (Nat.zero_ne_add_one _)
  | cons state states => exact ⟨state, states, _, rfl, htoken, by rw [cell, hs, hmin, htoken]⟩

lemma InBounds.movesTo (h : p.InBounds P.table tokens.size) (hm : P.MovesTo tokens p q) :
    q.InBounds P.table tokens.size := by
  obtain ⟨above, hstates, habove⟩ := h.states
  obtain ⟨state, states, token', hs, _, hcell⟩ := InBounds.exists_cell h
  obtain ⟨token, actions, action, _, _, hc, ha, hm⟩ := hm
  obtain ⟨rfl, rfl⟩ := Prod.mk.inj (Option.some.inj (hcell.symm.trans hc))
  have hin := options_inRange hT ha
  cases action with
  | shift target =>
    obtain ⟨hlt, context, value, _, rfl⟩ := shift_next hm
    exact ⟨Nat.add_lt_of_lt_sub hlt, congrArg Nat.succ h.length_eq, target :: above, congrArg _ hstates,
      List.forall_mem_cons.mpr ⟨hin, habove⟩⟩
  | reduce index =>
    obtain ⟨production, exposed, target, context, value, _, _, hle, hg, _, rfl⟩ := reduce_next hm
    have hlength : above.length = p.values.length := by
      have hlen := h.length_eq
      rw [hstates, List.length_append] at hlen
      exact Nat.succ.inj hlen
    have hdrop : p.states.drop production.rhs.length = above.drop production.rhs.length ++ [0] := by
      rw [hstates, List.drop_append_of_le_length (hlength ▸ hle)]
    refine ⟨h.position_lt, ?_, target :: above.drop production.rhs.length, congrArg _ hdrop,
      List.forall_mem_cons.mpr ⟨hT.goto?_lt hg, fun s hs => habove s (List.mem_of_mem_drop hs)⟩⟩
    dsimp only
    rw [List.length_cons, List.length_cons, List.length_drop, List.length_drop, h.length_eq]
    omega
  | accept => exact absurd hm accept_ne_next

end Moves

def Resumes (P : Parser τ ν κ ε δ) (tokens : Array τ) (c : Path ν κ × Nat) : Prop :=
  c.1.InBounds P.table tokens.size ∧ ∃ token actions, P.cell tokens c.1 = some (token, actions) ∧ c.2 < actions.length

lemma Took.pending {D : Core ν κ ε δ} {v : Verdict ε} (h : P.Took tokens S D v) (hv : ∀ f, v ≠ .stop f) :
    ∀ c ∈ D.pending, c ∈ S.core.pending ∨ c = (S.path, S.choice + 1) ∧
      ∃ token actions, P.cell tokens S.path = some (token, actions) ∧ S.choice + 1 < actions.length := by
  cases h with
  | lost => exact fun c hc => Or.inl hc
  | empty => exact fun c hc => Or.inl hc
  | exhausted => exact fun c hc => Or.inl hc
  | @acted token actions others action _ _ hc hd hm =>
    have hmark : ∀ c ∈ S.mark others, c ∈ S.core.pending ∨ c = (S.path, S.choice + 1) ∧
        ∃ token actions, P.cell tokens S.path = some (token, actions) ∧ S.choice + 1 < actions.length := by
      intro c hmem
      rw [State.mark] at hmem
      split at hmem
      · exact Or.inl hmem
      · rename_i hothers
        rcases List.mem_cons.mp hmem with rfl | hmem
        · refine Or.inr ⟨rfl, token, actions, hc, ?_⟩
          have hlen := congrArg List.length hd
          rw [List.length_drop, List.length_cons] at hlen
          have hpos := List.length_pos_of_ne_nil (mt List.isEmpty_iff.mpr hothers)
          omega
        · exact Or.inl hmem
    generalize P.move tokens S.store S.path _ _ = m at hm
    cases hm with
    | next => exact hmark
    | rejected => exact hmark
    | accepted => exact hmark
    | overfull => exact absurd rfl (hv _)
    | stopped => exact absurd rfl (hv _)

structure InBounds (P : Parser τ ν κ ε δ) (tokens : Array τ) (S : State ν κ ε δ) : Prop where
  path : S.path.InBounds P.table tokens.size
  choice : S.choice = 0 ∨ P.Resumes tokens (S.path, S.choice)
  pending : ∀ c ∈ S.core.pending, P.Resumes tokens c

variable {T : State ν κ ε δ}

lemma inBounds_start (store : δ) (hne : tokens ≠ #[]) : P.InBounds tokens (P.start store) where
  path := ⟨Array.size_pos_iff.mpr hne, rfl, [], rfl, nofun⟩
  choice := Or.inl rfl
  pending := nofun

lemma InBounds.pending_step {D : Core ν κ ε δ} {v : Verdict ε} (h : P.InBounds tokens S) (ht : P.Took tokens S D v)
    (hv : ∀ f, v ≠ .stop f) : ∀ c ∈ D.pending, P.Resumes tokens c := by
  intro c hc
  rcases ht.pending hv c hc with hc | ⟨rfl, token, actions, hcell, hlt⟩
  · exact h.pending c hc
  · exact ⟨h.path, token, actions, hcell, hlt⟩

lemma InBounds.of_reaches (hT : P.table.InRange) (h : P.InBounds tokens S) (hS : P.Reaches tokens S T) : P.InBounds tokens T := by
  induction hS with
  | refl => exact h
  | @proceed T T' _ hs ih =>
    have ht := P.step_took tokens T.counted
    rw [hs] at ht
    have ih' : P.InBounds tokens T.counted := ⟨ih.path, ih.choice, ih.pending⟩
    obtain ⟨⟨token, actions, action, hc, ha, hm⟩, _⟩ := ht.proceed
    exact ⟨InBounds.movesTo hT ih.path ⟨token, actions, action, _, _, hc, ha, hm⟩, Or.inl rfl,
      ih'.pending_step ht nofun⟩
  | @resume T T' U reason _ hs hr ih =>
    have ht := P.step_took tokens T.counted
    rw [hs] at ht
    have ih' : P.InBounds tokens T.counted := ⟨ih.path, ih.choice, ih.pending⟩
    have hpending := ih'.pending_step ht nofun
    rcases resume?_cases (P := P) (P.reject T' reason) with ⟨hnone, _⟩ | ⟨U', hsome, hpend, _⟩
    · cases hr.symm.trans hnone
    · obtain rfl := Option.some.inj (hr.symm.trans hsome)
      have hcore := congrArg Core.pending (core_reject (P := P) T' reason)
      rw [hcore] at hpend
      have hall : ∀ c ∈ (U.path, U.choice) :: U.core.pending, P.Resumes tokens c := hpend ▸ hpending
      obtain ⟨hself, hrest⟩ := List.forall_mem_cons.mp hall
      exact ⟨hself.1, Or.inr hself, hrest⟩

lemma InBounds.finds (hT : P.table.InRange) (h : P.InBounds tokens S) : ∃ state states token,
    S.path.states = state :: states ∧ tokens[S.path.position]? = some token ∧
      (S.choice < (P.options state token).length ∨ P.options state token = []) ∧
      ∀ index, .reduce index ∈ P.options state token → ∃ production, P.table.productions[index]? = some production := by
  obtain ⟨state, states, token, hs, htoken, hcell⟩ := InBounds.exists_cell h.path
  refine ⟨state, states, token, hs, htoken, ?_, fun index hi => ?_⟩
  · rcases h.choice with hzero | ⟨_, token', actions, hcell', hlt⟩
    · rw [hzero, or_comm, ← List.length_eq_zero_iff]
      exact Nat.eq_zero_or_pos _
    · obtain ⟨rfl, rfl⟩ := Prod.mk.inj (Option.some.inj (hcell.symm.trans hcell'))
      exact Or.inl hlt
  · exact ⟨_, Array.getElem?_eq_getElem (options_inRange hT hi)⟩

lemma parse_ne_emptyInput (before : Stats) (store : δ) (hne : tokens ≠ #[]) :
    (P.parse before store tokens).result ≠ .error .emptyInput := by
  rcases parse_result before store hne with ⟨_, failure, hrun, hr⟩ | ⟨E, _, hr, _⟩
  · rw [hr]
    rintro he
    obtain rfl := Except.error.inj he
    rcases run_failure hrun with ⟨_, he⟩ | ⟨_, he⟩ | ⟨_, _, _, _, _, _, hm⟩
    · cases he
    · cases he
    · obtain ⟨_, _, _, _, _, _, _, ⟨_, he⟩ | ⟨he, _⟩⟩ := move_stop hm <;> cases he
  · rw [hr]
    rcases P.conclude_of_ne hne E with ⟨_, hk⟩ | ⟨_, e, hk⟩ <;> rw [hk] <;> exact nofun

/-- Any table that is read from a document is safe to search with: on every path that a search
follows or goes back to, there is one state more than values, the states above the first are states
of the table, and the position is that of a token; the step finds its token and its production, and
the alternative that it takes is one of the cell, unless the cell is empty. The productions are shown
with names of the table. -/
theorem search_inBounds {text : String} {T : Table} (h : Table.ofJson text = .ok T) :
    (∀ index p, T.productions[index]? = some p → ∃ left right, T.nonterminals[p.lhs]? = some left ∧
      List.Forall₂ (fun s name => T.nameAt? s = some name) p.rhs right ∧
      T.productionText index = left ++ " ->" ++ String.join (right.map (" " ++ ·))) ∧
    ∀ {τ ν κ ε δ : Type} (P : Parser τ ν κ ε δ) (tokens : Array τ) (before : Stats) (store : δ),
      P.table = T → tokens ≠ #[] → (P.parse before store tokens).result ≠ .error .emptyInput ∧
      ∀ S, P.Reaches tokens (P.start store) S →
        (∀ p ∈ paths S, p.states.length = p.values.length + 1 ∧ p.position ≤ tokens.size - 1 ∧
          ∃ above, p.states = above ++ [0] ∧ ∀ s ∈ above, s < T.stateCount) ∧
        (∀ c ∈ S.checkpoints, ∃ token actions, P.cell tokens c.path = some (token, actions) ∧
          c.alternative + 1 < actions.length) ∧
        ∃ state states token, S.path.states = state :: states ∧ tokens[S.path.position]? = some token ∧
          (S.choice < (P.options state token).length ∨ P.options state token = []) ∧
          ∀ index, .reduce index ∈ P.options state token → ∃ production, T.productions[index]? = some production := by
  have hrange := (Table.validate_eq_ok.mp (Table.ofJson_eq_ok h)).2
  refine ⟨fun index p hp => hrange.productionText hp, ?_⟩
  rintro τ ν κ ε δ P tokens before store rfl hne
  refine ⟨parse_ne_emptyInput before store hne, fun S hS => ?_⟩
  have hin := InBounds.of_reaches hrange (inBounds_start store hne) hS
  refine ⟨fun p hp => ?_, fun c hc => ?_, hin.finds hrange⟩
  · have hp' : p.InBounds P.table tokens.size := by
      rcases List.mem_cons.mp hp with rfl | hp
      · exact hin.path
      · obtain ⟨c, hc, rfl⟩ := List.mem_map.mp hp
        exact (hin.pending c hc).1
    exact ⟨hp'.length_eq, Nat.le_sub_one_of_lt hp'.position_lt, hp'.states⟩
  · exact (hin.pending (c.path, c.alternative + 1) (List.mem_map.mpr ⟨c, hc, rfl⟩)).2

def unsortedText : String :=
  "[1, [\"a\", \"end\"], [\"S\"], [[7, \"s\", 0, 1, [\x7b\"Term\": 0\x7d]]], 1,
    [[[1, [\"Accept\"]], [0, [\x7b\"Shift\": 1\x7d, \x7b\"Reduce\": 0\x7d]]], []], [[], []]]"

def unsortedTable : Table where
  version := 1
  terminals := #["a", "end"]
  nonterminals := #["S"]
  productions := #[⟨7, "s", 0, 1, [.term 0]⟩]
  endMark := 1
  actions := #[#[(1, [.accept]), (0, [.shift 1, .reduce 0])], #[]]
  gotos := #[#[], #[]]

def unsortedParser : Parser Nat Nat Unit Unit Unit where
  table := unsortedTable
  builder := ⟨some, (), fun _ _ token _ => ((), .ok ((), token)), fun _ _ _ _ => ((), .error (.reject ())), fun _ _ => ()⟩

lemma unsorted_actionsAt : unsortedTable.actionsAt 0 0 = [.shift 1, .reduce 0] := by decide +kernel

theorem search_inBounds_unsorted : Table.ofJson unsortedText = .ok unsortedTable ∧ (#[0, 1] : Array Nat) ≠ #[] ∧
    ∃ S, unsortedParser.Reaches #[0, 1] (unsortedParser.start ()) S ∧ S.checkpoints.length = 1 ∧
      ∀ c ∈ S.checkpoints, ∃ token actions, unsortedParser.cell #[0, 1] c.path = some (token, actions) ∧
        c.alternative + 1 < actions.length := by
  have hread : Table.ofJson unsortedText = .ok unsortedTable := by decide +kernel
  have hstep : unsortedParser.step #[0, 1] (unsortedParser.start ()).counted =
      ({ path := ⟨1, [1, 0], [0], ()⟩
         checkpoints := [⟨⟨0, [0], [], ()⟩, 0, 1⟩]
         stats := { steps := 1, shifts := 1, checkpoints := 1, maxDepth := 1 }
         store := () }, .proceed) := by
    have htoken : (#[0, 1] : Array Nat)[0]? = some 0 := rfl
    have hstates : (unsortedParser.start ()).counted.path.states = 0 :: [] := rfl
    have hoptions : unsortedParser.options 0 0 = [.shift 1, .reduce 0] := unsorted_actionsAt
    rw [step_eq hstates htoken, hoptions]
    rfl
  have hreach := Reaches.refl.proceed hstep
  have hne : (#[0, 1] : Array Nat) ≠ #[] := Array.size_pos_iff.mp (Nat.two_pos)
  exact ⟨hread, hne, _, hreach, rfl, (((search_inBounds hread).2 unsortedParser _ {} () rfl hne).2 _ hreach).2.1⟩

end Parser

end Search

end Ramify
