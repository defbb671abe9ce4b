import Ramify.Search
import Mathlib

namespace Ramify.Search

variable {τ ν κ ε δ : Type}

inductive Move (ν κ ε : Type) where
  | next (path : Path ν κ)
  | accepted (value : ν)
  | rejected (reason : Option ε)
  | stop (failure : Failure ε)

namespace Path

def shifted (p : Path ν κ) (target : Nat) : Except ε (κ × ν) → Move ν κ ε
  | .error e => .rejected (some e)
  | .ok (context, value) => .next ⟨p.position + 1, target :: p.states, value :: p.values, context⟩

def reduced (p : Path ν κ) (index n target : Nat) : Except (Refusal ε) (κ × ν) → Move ν κ ε
  | .error .undefined => .stop (.undefined index)
  | .error (.reject e) => .rejected (some e)
  | .ok (context, value) =>
    .next ⟨p.position, target :: p.states.drop n, value :: p.values.drop n, context⟩

end Path

namespace Parser

variable (P : Parser τ ν κ ε δ) (tokens : Array τ)

def options (state : Nat) (token : τ) : List Action :=
  match P.builder.terminal token with
  | some t => P.table.actionsAt state t
  | none => []

def cell (p : Path ν κ) : Option (τ × List Action) :=
  match p.states, tokens[min p.position (tokens.size - 1)]? with
  | state :: _, some token => some (token, P.options state token)
  | _, _ => none

def cellError (p : Path ν κ) (token : τ) : ε :=
  P.builder.syntaxError token (min p.position (tokens.size - 1))

def shiftMove (store : δ) (p : Path ν κ) (token : τ) (target : Nat) : δ × Move ν κ ε :=
  if tokens.size - 1 ≤ p.position then
    (store, .rejected (some (P.builder.syntaxError token (tokens.size - 1))))
  else
    let made := P.builder.shift store p.context token p.position
    (made.1, p.shifted target made.2)

def reduceMove (store : δ) (p : Path ν κ) (index : Nat) : δ × Move ν κ ε :=
  match P.table.productions[index]? with
  | none => (store, .rejected none)
  | some production =>
    let n := production.rhs.length
    match p.states[n]? with
    | none => (store, .rejected none)
    | some exposed =>
      if p.values.length < n then (store, .rejected none)
      else
        match P.table.goto? exposed production.lhs with
        | none => (store, .stop (.missingGoto exposed production.lhs))
        | some target =>
          let made := P.builder.reduce store p.context production (p.values.take n).reverse
          (made.1, p.reduced index n target made.2)

def move (store : δ) (p : Path ν κ) (token : τ) : Action → δ × Move ν κ ε
  | .shift target => P.shiftMove tokens store p token target
  | .reduce index => P.reduceMove store p index
  | .accept =>
    match p.values with
    | [] => (store, .rejected none)
    | value :: _ => (store, .accepted value)

end Parser

structure Core (ν κ ε δ : Type) where
  path : Path ν κ
  pending : List (Path ν κ × Nat)
  candidates : List ν
  deepest : Option (Nat × ε)
  store : δ

def State.core (S : State ν κ ε δ) : Core ν κ ε δ :=
  ⟨S.path, S.checkpoints.map fun c => (c.path, c.alternative + 1), S.candidates, S.deepest, S.store⟩

def State.mark (S : State ν κ ε δ) (others : List Action) : List (Path ν κ × Nat) :=
  if others.isEmpty then S.core.pending else (S.path, S.choice + 1) :: S.core.pending

lemma splitTop?_eq {α : Type} (n : Nat) (taken rest : List α) : splitTop? n taken rest =
    if n ≤ rest.length then some ((rest.take n).reverse ++ taken, rest.drop n) else none := by
  fun_induction splitTop? n taken rest with
  | case1 => simp
  | case2 => simp
  | case3 n taken a rest ih => simp [ih]

lemma ne_nil_of_drop {α : Type} {l rest : List α} {a : α} {k : Nat} (h : l.drop k = a :: rest) : l ≠ [] := by
  rintro rfl
  simp at h

lemma mem_of_drop {α : Type} {l rest : List α} {a : α} {k : Nat} (h : l.drop k = a :: rest) : a ∈ l :=
  List.mem_of_mem_drop (h ▸ List.mem_cons_self)

lemma drop_succ_of_drop {α : Type} {l rest : List α} {a : α} {k : Nat} (h : l.drop k = a :: rest) :
    l.drop (k + 1) = rest := by
  rw [← List.drop_drop, h]
  rfl

namespace Parser

variable (P : Parser τ ν κ ε δ) (tokens : Array τ)

def act (S : State ν κ ε δ) (token : τ) (last : Nat) : Action → State ν κ ε δ × Verdict ε
  | .shift target => P.shift S token last target
  | .reduce index => P.reduce S index
  | .accept => P.accept S

inductive Performs (C : Core ν κ ε δ) : δ × Move ν κ ε → Core ν κ ε δ → Verdict ε → Prop
  | next {store : δ} {path : Path ν κ} : Performs C (store, .next path) { C with path, store } .proceed
  | rejected {store : δ} {reason : Option ε} :
      Performs C (store, .rejected reason) { C with store } (.backtrack reason)
  | accepted {store : δ} {value : ν} : Performs C (store, .accepted value)
      { C with store, candidates := value :: C.candidates } (.backtrack none)
  | overfull {store : δ} {value : ν} {D : Core ν κ ε δ} :
      Performs C (store, .accepted value) D (.stop (.candidateLimit P.limits.maxCandidates))
  | stopped {store : δ} {failure : Failure ε} {D : Core ν κ ε δ} :
      Performs C (store, .stop failure) D (.stop failure)

inductive Took (S : State ν κ ε δ) : Core ν κ ε δ → Verdict ε → Prop
  | lost : P.cell tokens S.path = none → Took S S.core (.backtrack none)
  | empty {token : τ} : P.cell tokens S.path = some (token, []) →
      Took S S.core (.backtrack (some (P.cellError tokens S.path token)))
  | exhausted {token : τ} {actions : List Action} : P.cell tokens S.path = some (token, actions) →
      actions.drop S.choice = [] → actions ≠ [] → Took S S.core (.backtrack none)
  | acted {token : τ} {actions others : List Action} {action : Action} {D : Core ν κ ε δ} {v : Verdict ε} :
      P.cell tokens S.path = some (token, actions) → actions.drop S.choice = action :: others →
      P.Performs { S.core with pending := S.mark others }
        (P.move tokens S.store S.path token action) D v → Took S D v

variable {P tokens}

lemma Took.performs {S : State ν κ ε δ} {D : Core ν κ ε δ} {v : Verdict ε} {token : τ} {actions others : List Action}
    {action : Action} (h : P.Took tokens S D v) (hc : P.cell tokens S.path = some (token, actions))
    (hd : actions.drop S.choice = action :: others) :
    P.Performs { S.core with pending := S.mark others } (P.move tokens S.store S.path token action) D v := by
  have hne := ne_nil_of_drop hd
  cases h with
  | lost hc' => cases hc'.symm.trans hc
  | empty hc' =>
    cases hc'.symm.trans hc
    exact absurd rfl hne
  | exhausted hc' hd' _ =>
    cases hc'.symm.trans hc
    cases hd'.symm.trans hd
  | acted hc' hd' hm =>
    cases hc'.symm.trans hc
    cases hd'.symm.trans hd
    exact hm

section Inversion

variable {store store' : δ} {p q : Path ν κ} {token : τ}

lemma shift_cases {target : Nat} {m : Move ν κ ε}
    (h : P.move tokens store p token (.shift target) = (store', m)) :
    (∃ e, m = .rejected (some e)) ∨ p.position < tokens.size - 1 ∧ ∃ context value,
      P.builder.shift store p.context token p.position = (store', .ok (context, value)) ∧
      m = .next ⟨p.position + 1, target :: p.states, value :: p.values, context⟩ := by
  rw [move, shiftMove] at h
  split at h
  · exact Or.inl ⟨_, (congrArg Prod.snd h).symm⟩
  · rename_i hlt
    rcases hb : P.builder.shift store p.context token p.position with ⟨store₁, e | ⟨context, value⟩⟩
    · rw [hb] at h
      exact Or.inl ⟨e, (congrArg Prod.snd h).symm⟩
    · rw [hb] at h
      obtain ⟨rfl, rfl⟩ := Prod.mk.inj h
      exact Or.inr ⟨Nat.not_le.mp hlt, context, value, rfl, rfl⟩

lemma shift_next {target : Nat} (h : P.move tokens store p token (.shift target) = (store', .next q)) :
    p.position < tokens.size - 1 ∧ ∃ context value,
      P.builder.shift store p.context token p.position = (store', .ok (context, value)) ∧
      q = ⟨p.position + 1, target :: p.states, value :: p.values, context⟩ := by
  rcases shift_cases h with ⟨e, hm⟩ | ⟨hlt, context, value, hb, hm⟩
  · cases hm
  · cases hm
    exact ⟨hlt, context, value, hb, rfl⟩

lemma reduce_cases {index : Nat} {m : Move ν κ ε}
    (h : P.move tokens store p token (.reduce index) = (store', m)) :
    m = .rejected none ∨ ∃ production exposed, P.table.productions[index]? = some production ∧
      p.states[production.rhs.length]? = some exposed ∧ production.rhs.length ≤ p.values.length ∧
      (P.table.goto? exposed production.lhs = none ∧ m = .stop (.missingGoto exposed production.lhs) ∨
        ∃ target made, P.table.goto? exposed production.lhs = some target ∧
          P.builder.reduce store p.context production (p.values.take production.rhs.length).reverse =
            (store', made) ∧ m = p.reduced index production.rhs.length target made) := by
  rw [move, reduceMove] at h
  cases hp : P.table.productions[index]? with
  | none =>
    rw [hp] at h
    exact Or.inl (congrArg Prod.snd h).symm
  | some production =>
    rw [hp] at h
    dsimp only at h
    split at h
    · exact Or.inl (congrArg Prod.snd h).symm
    · rename_i exposed he
      split at h
      · exact Or.inl (congrArg Prod.snd h).symm
      · rename_i hv
        refine Or.inr ⟨production, exposed, rfl, he, Nat.not_lt.mp hv, ?_⟩
        split at h
        · rename_i hg
          exact Or.inl ⟨hg, (congrArg Prod.snd h).symm⟩
        · rename_i target hg
          obtain ⟨rfl, rfl⟩ := Prod.mk.inj h
          exact Or.inr ⟨target, _, hg, rfl, rfl⟩

lemma reduce_next {index : Nat} (h : P.move tokens store p token (.reduce index) = (store', .next q)) :
    ∃ production exposed target context value, P.table.productions[index]? = some production ∧
      p.states[production.rhs.length]? = some exposed ∧ production.rhs.length ≤ p.values.length ∧
      P.table.goto? exposed production.lhs = some target ∧
      P.builder.reduce store p.context production (p.values.take production.rhs.length).reverse =
        (store', .ok (context, value)) ∧
      q = ⟨p.position, target :: p.states.drop production.rhs.length,
        value :: p.values.drop production.rhs.length, context⟩ := by
  rcases reduce_cases h with hm | ⟨production, exposed, hp, he, hv, ⟨_, hm⟩ | ⟨target, made, hg, hb, hm⟩⟩
  · cases hm
  · cases hm
  · rcases made with (e | _) | ⟨context, value⟩
    · cases hm
    · cases hm
    · cases hm
      exact ⟨production, exposed, target, context, value, hp, he, hv, hg, hb, rfl⟩

lemma move_shift {target : Nat} {context : κ} {value : ν} (hlt : p.position < tokens.size - 1)
    (hb : P.builder.shift store p.context token p.position = (store', .ok (context, value))) :
    P.move tokens store p token (.shift target) =
      (store', .next ⟨p.position + 1, target :: p.states, value :: p.values, context⟩) := by
  rw [move, shiftMove, if_neg (Nat.not_le.mpr hlt), hb]
  rfl

lemma move_reduce {index exposed target : Nat} {production : Production} {context : κ} {value : ν}
    (hp : P.table.productions[index]? = some production) (he : p.states[production.rhs.length]? = some exposed)
    (hv : production.rhs.length ≤ p.values.length) (hg : P.table.goto? exposed production.lhs = some target)
    (hb : P.builder.reduce store p.context production (p.values.take production.rhs.length).reverse =
      (store', .ok (context, value))) :
    P.move tokens store p token (.reduce index) = (store', .next ⟨p.position,
      target :: p.states.drop production.rhs.length, value :: p.values.drop production.rhs.length, context⟩) := by
  rw [move, reduceMove, hp]
  dsimp only
  rw [he]
  dsimp only
  rw [if_neg (Nat.not_lt.mpr hv), hg]
  dsimp only
  rw [hb]
  rfl

lemma move_accept {value : ν} {values : List ν} (hv : p.values = value :: values) :
    P.move tokens store p token .accept = (store, .accepted value) := by
  rw [move, hv]

lemma accept_ne_next : P.move tokens store p token .accept ≠ (store', .next q) := by
  intro h
  rw [move] at h
  split at h <;> cases h

lemma accept_accepted {action : Action} {value : ν}
    (h : P.move tokens store p token action = (store', .accepted value)) :
    action = .accept ∧ ∃ values, p.values = value :: values := by
  cases action with
  | shift target =>
    rcases shift_cases h with ⟨_, hm⟩ | ⟨_, _, _, _, hm⟩ <;> cases hm
  | reduce index =>
    rcases reduce_cases h with hm | ⟨production, _, _, _, _, ⟨_, hm⟩ | ⟨_, made, _, _, hm⟩⟩
    · cases hm
    · cases hm
    · rcases made with (_ | _) | _ <;> cases hm
  | accept =>
    refine ⟨rfl, ?_⟩
    rw [move] at h
    cases hv : p.values with
    | nil =>
      rw [hv] at h
      cases h
    | cons v values =>
      rw [hv] at h
      cases h
      exact ⟨values, rfl⟩

variable (P tokens store p token) in
lemma move_store (action : Action) : (P.move tokens store p token action).1 = store ∨
    (P.move tokens store p token action).1 = (P.builder.shift store p.context token p.position).1 ∨
    ∃ production : Production, (P.move tokens store p token action).1 =
      (P.builder.reduce store p.context production (p.values.take production.rhs.length).reverse).1 := by
  cases action with
  | shift target =>
    rw [move, shiftMove]
    split
    · exact Or.inl rfl
    · exact Or.inr (Or.inl rfl)
  | reduce index =>
    rw [move, reduceMove]
    split
    · exact Or.inl rfl
    · dsimp only
      split
      · exact Or.inl rfl
      · split
        · exact Or.inl rfl
        · split
          · exact Or.inl rfl
          · exact Or.inr (Or.inr ⟨_, rfl⟩)
  | accept =>
    rw [move]
    split <;> exact Or.inl rfl

lemma move_stop {action : Action} {failure : Failure ε}
    (h : P.move tokens store p token action = (store', .stop failure)) :
    ∃ index production exposed, action = .reduce index ∧ P.table.productions[index]? = some production ∧
      p.states[production.rhs.length]? = some exposed ∧ production.rhs.length ≤ p.values.length ∧
      (P.table.goto? exposed production.lhs = none ∧ failure = .missingGoto exposed production.lhs ∨
        failure = .undefined index ∧ P.builder.reduce store p.context production
          (p.values.take production.rhs.length).reverse = (store', .error .undefined)) := by
  cases action with
  | shift target =>
    rcases shift_cases h with ⟨_, hm⟩ | ⟨_, _, _, _, hm⟩ <;> cases hm
  | reduce index =>
    rcases reduce_cases h with hm | ⟨production, exposed, hp, he, hv, ⟨hg, hm⟩ | ⟨_, made, _, hb, hm⟩⟩
    · cases hm
    · cases hm
      exact ⟨index, production, exposed, rfl, hp, he, hv, Or.inl ⟨hg, rfl⟩⟩
    · rcases made with (_ | _) | _
      · cases hm
      · cases hm
        exact ⟨index, production, exposed, rfl, hp, he, hv, Or.inr ⟨rfl, hb⟩⟩
      · cases hm
  | accept =>
    rw [move] at h
    split at h <;> cases h

end Inversion

lemma note_eq (S : State ν κ ε δ) (e : Event ε) : ∃ events, P.note S e = { S with events } := by
  rw [note]
  split
  · exact ⟨e :: S.events, rfl⟩
  · exact ⟨S.events, rfl⟩

lemma core_note (S : State ν κ ε δ) (e : Event ε) : (P.note S e).core = S.core := by
  obtain ⟨events, he⟩ := note_eq (P := P) S e
  rw [he]
  rfl

lemma shift_performs (S : State ν κ ε δ) (token : τ) (target : Nat) :
    P.Performs S.core (P.move tokens S.store S.path token (.shift target))
      (P.shift S token (tokens.size - 1) target).1.core (P.shift S token (tokens.size - 1) target).2 := by
  rw [move, shiftMove, shift]
  dsimp only
  split
  · exact .rejected
  · rcases P.builder.shift S.store S.path.context token S.path.position with ⟨store, e | ⟨context, value⟩⟩
    · exact .rejected
    · obtain ⟨events, he⟩ := note_eq (P := P) S
        (.shift S.path.position ((P.builder.terminal token).getD 0) target)
      dsimp only
      rw [he]
      exact .next

lemma reduce_performs (S : State ν κ ε δ) (token : τ) (index : Nat) :
    P.Performs S.core (P.move tokens S.store S.path token (.reduce index)) (P.reduce S index).1.core
      (P.reduce S index).2 := by
  rw [move, reduceMove, reduce]
  cases P.table.productions[index]? with
  | none => exact .rejected
  | some production =>
    dsimp only
    rw [splitTop?_eq, splitTop?_eq]
    cases he : S.path.states[production.rhs.length]? with
    | none =>
      have hd : S.path.states.drop production.rhs.length = [] :=
        List.drop_eq_nil_of_le (List.getElem?_eq_none_iff.mp he)
      rw [hd]
      by_cases hs : production.rhs.length ≤ S.path.states.length
      · rw [if_pos hs]
        exact .rejected
      · rw [if_neg hs]
        exact .rejected
    | some exposed =>
      obtain ⟨hlt, rfl⟩ := List.getElem?_eq_some_iff.mp he
      have hd := List.drop_eq_getElem_cons hlt
      rw [if_pos (Nat.le_of_lt hlt), hd]
      by_cases hv : production.rhs.length ≤ S.path.values.length
      · rw [if_pos hv]
        dsimp only
        rw [if_neg (Nat.not_lt.mpr hv), List.append_nil]
        cases P.table.goto? S.path.states[production.rhs.length] production.lhs with
        | none => exact .stopped
        | some target =>
          dsimp only
          rcases P.builder.reduce S.store S.path.context production
            (S.path.values.take production.rhs.length).reverse with ⟨store, (e | _) | ⟨context, value⟩⟩
          · exact .rejected
          · exact .stopped
          · obtain ⟨events, he⟩ := note_eq (P := P) S (.reduce S.path.position index target)
            dsimp only
            rw [he, ← hd]
            exact .next
      · rw [if_neg hv]
        dsimp only
        rw [if_pos (Nat.not_le.mp hv)]
        exact .rejected

lemma accept_performs (S : State ν κ ε δ) (token : τ) :
    P.Performs S.core (P.move tokens S.store S.path token .accept) (P.accept S).1.core (P.accept S).2 := by
  rw [move, accept]
  cases S.path.values with
  | nil => exact .rejected
  | cons value values =>
    dsimp only
    split
    · exact .overfull
    · rw [core_note]
      exact .accepted

lemma save_mark (S : State ν κ ε δ) (state alternatives : Nat) (others : List Action) :
    (if others.isEmpty then S else P.save S state alternatives).core =
      { S.core with pending := S.mark others } := by
  rw [State.mark]
  split
  · rfl
  · rw [save, core_note]
    rfl

lemma act_performs (S : State ν κ ε δ) (token : τ) (action : Action) :
    P.Performs S.core (P.move tokens S.store S.path token action)
      (P.act S token (tokens.size - 1) action).1.core (P.act S token (tokens.size - 1) action).2 := by
  cases action with
  | shift target => exact shift_performs S token target
  | reduce index => exact reduce_performs S token index
  | accept => exact accept_performs S token

lemma step_eq {S : State ν κ ε δ} {state : Nat} {states : List Nat} {token : τ}
    (hs : S.path.states = state :: states)
    (ht : tokens[min S.path.position (tokens.size - 1)]? = some token) : P.step tokens S =
      match (P.options state token).drop S.choice with
      | [] => (S, .backtrack (if (P.options state token).isEmpty then
          some (P.cellError tokens S.path token) else none))
      | action :: others => P.act (if others.isEmpty then S else
          P.save S state (P.options state token).length) token (tokens.size - 1) action := by
  rw [step, hs, ht]
  rfl

variable (P tokens) in
lemma step_took (S : State ν κ ε δ) :
    P.Took tokens S (P.step tokens S).1.core (P.step tokens S).2 := by
  cases hs : S.path.states with
  | nil =>
    rw [step, hs]
    exact .lost (by rw [cell, hs])
  | cons state states =>
    cases ht : tokens[min S.path.position (tokens.size - 1)]? with
    | none =>
      rw [step, hs, ht]
      exact .lost (by rw [cell, hs, ht])
    | some token =>
      have hc : P.cell tokens S.path = some (token, P.options state token) := by rw [cell, hs, ht]
      rw [step_eq hs ht]
      cases hd : (P.options state token).drop S.choice with
      | nil =>
        dsimp only
        split
        · rename_i he
          exact .empty (List.isEmpty_iff.mp he ▸ hc)
        · rename_i he
          exact .exhausted hc hd (fun h => he (List.isEmpty_iff.mpr h))
      | cons action others =>
        have hsave := save_mark (P := P) S state (P.options state token).length others
        set T := if others.isEmpty then S else P.save S state (P.options state token).length
        have hpath : T.path = S.path := congrArg Core.path hsave
        have hstore : T.store = S.store := congrArg Core.store hsave
        refine .acted hc hd ?_
        rw [← hsave, ← hpath, ← hstore]
        exact act_performs T token action

end Parser

end Ramify.Search
