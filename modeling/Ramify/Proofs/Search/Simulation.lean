import Ramify.Proofs.Search.Explore

namespace Ramify

namespace Builder

variable {τ ν ν' κ ε δ : Type}

inductive Matches {ε : Type} (View : ν → ν' → Prop) : Except ε (κ × ν) → Except ε (κ × ν') → Prop
  | error (e : ε) : Matches View (.error e) (.error e)
  | ok (c : κ) {v : ν} {v' : ν'} : View v v' → Matches View (.ok (c, v)) (.ok (c, v'))

structure Mirrors (M : Builder τ ν' κ ε Unit) (B : Builder τ ν κ ε δ) (View : δ → ν → ν' → Prop) : Prop where
  terminal_eq : M.terminal = B.terminal
  initial_eq : M.initial = B.initial
  syntaxError_eq : M.syntaxError = B.syntaxError
  shift (s : δ) (c : κ) (token : τ) (i : Nat) :
    Matches (View (B.shift s c token i).1) (B.shift s c token i).2 (M.shift () c token i).2
  reduce {s : δ} (c : κ) (p : Production) {children : List ν} {children' : List ν'} :
    List.Forall₂ (View s) children children' →
    Matches (View (B.reduce s c p children).1) (B.reduce s c p children).2 (M.reduce () c p children').2
  shift_view {s : δ} {v : ν} {v' : ν'} (c : κ) (token : τ) (i : Nat) :
    View s v v' → View (B.shift s c token i).1 v v'
  reduce_view {s : δ} {v : ν} {v' : ν'} (c : κ) (p : Production) (children : List ν) :
    View s v v' → View (B.reduce s c p children).1 v v'

end Builder

namespace Search

variable {τ ν ν' κ ε δ : Type}

structure Path.Views (View : ν → ν' → Prop) (p : Path ν κ) (q : Path ν' κ) : Prop where
  position_eq : q.position = p.position
  states_eq : q.states = p.states
  context_eq : q.context = p.context
  values : List.Forall₂ View p.values q.values

inductive Move.Views (View : ν → ν' → Prop) : Move ν κ ε → Move ν' κ ε → Prop
  | next {p : Path ν κ} {q : Path ν' κ} : p.Views View q → Views View (.next p) (.next q)
  | accepted {v : ν} {v' : ν'} : View v v' → Views View (.accepted v) (.accepted v')
  | rejected (reason : Option ε) : Views View (.rejected reason) (.rejected reason)
  | stop (failure : Failure ε) : Views View (.stop failure) (.stop failure)

inductive Ending.Views (View : ν → ν' → Prop) : Ending ν ε → Ending ν' ε → Prop
  | accepted {v : ν} {v' : ν'} : View v v' → Views View (.accepted v) (.accepted v')
  | rejected (position : Nat) (reason : Option ε) :
      Views View (.rejected position reason) (.rejected position reason)

section Views

variable {View Other : ν → ν' → Prop} {p : Path ν κ} {q : Path ν' κ} {es : List (Ending ν ε)}
  {es' : List (Ending ν' ε)}

lemma Path.Views.mono (h : p.Views View q) (hsub : ∀ v v', View v v' → Other v v') : p.Views Other q :=
  { h with values := h.values.imp fun {_ _} hv => hsub _ _ hv }

lemma Ending.Views.mono {e : Ending ν ε} {e' : Ending ν' ε} (h : e.Views View e')
    (hsub : ∀ v v', View v v' → Other v v') : e.Views Other e' := by
  cases h with
  | accepted hv => exact .accepted (hsub _ _ hv)
  | rejected position reason => exact .rejected position reason

lemma accepted_views (h : List.Forall₂ (Ending.Views View) es es') :
    List.Forall₂ View (accepted es) (accepted es') := by
  induction h with
  | nil => exact .nil
  | cons he _ ih =>
    cases he with
    | accepted hv => exact .cons hv ih
    | rejected => exact ih

end Views

namespace Parser

structure Mirrors (Q : Parser τ ν' κ ε Unit) (P : Parser τ ν κ ε δ) (View : δ → ν → ν' → Prop) : Prop where
  table_eq : Q.table = P.table
  builder : Q.builder.Mirrors P.builder View

variable {P : Parser τ ν κ ε δ} {Q : Parser τ ν' κ ε Unit} {View : δ → ν → ν' → Prop} {tokens : Array τ}
  {store store' : δ} {p : Path ν κ} {q : Path ν' κ} {token : τ}

lemma Mirrors.options_eq (h : Q.Mirrors P View) : Q.options = P.options := by
  funext state token
  rw [options, options, h.builder.terminal_eq, h.table_eq]

section Mirrors

variable (h : Q.Mirrors P View) (hp : p.Views (View store) q)

include h hp

lemma Mirrors.cell_eq : Q.cell tokens q = P.cell tokens p := by
  rw [cell, cell, hp.states_eq, hp.position_eq, h.options_eq]

lemma Mirrors.cellError_eq (token : τ) : Q.cellError tokens q token = P.cellError tokens p token := by
  rw [cellError, cellError, h.builder.syntaxError_eq, hp.position_eq]

lemma Mirrors.shiftMove (token : τ) (target : Nat) :
    (P.shiftMove tokens store p token target).2.Views (View (P.shiftMove tokens store p token target).1)
      (Q.shiftMove tokens () q token target).2 := by
  rw [Parser.shiftMove, Parser.shiftMove, hp.position_eq, hp.context_eq, h.builder.syntaxError_eq]
  split
  · exact .rejected _
  · have hmatch := h.builder.shift store p.context token p.position
    have hview : ∀ v v', View store v v' → View _ v v' := fun _ _ hv =>
      h.builder.shift_view p.context token p.position hv
    dsimp only
    generalize (P.builder.shift store p.context token p.position).2 = made at hmatch
    generalize (Q.builder.shift () p.context token p.position).2 = made' at hmatch
    cases hmatch with
    | error e => exact .rejected _
    | ok c hv =>
      refine .next ⟨by rw [hp.position_eq], by rw [hp.states_eq], rfl, .cons hv ?_⟩
      exact (hp.mono hview).values

lemma Mirrors.reduceMove (index : Nat) :
    (P.reduceMove store p index).2.Views (View (P.reduceMove store p index).1) (Q.reduceMove () q index).2 := by
  rw [Parser.reduceMove, Parser.reduceMove, h.table_eq, hp.states_eq, hp.context_eq, ← hp.values.length_eq]
  split
  · exact .rejected _
  · rename_i production _
    dsimp only
    split
    · exact .rejected _
    · split
      · exact .rejected _
      · split
        · exact .stop _
        · have hchildren := List.forall₂_reverse_iff.mpr
            (List.forall₂_take production.rhs.length hp.values)
          have hmatch := h.builder.reduce p.context production hchildren
          have hview : ∀ v v', View store v v' → View _ v v' := fun _ _ hv =>
            h.builder.reduce_view p.context production (p.values.take production.rhs.length).reverse hv
          dsimp only
          generalize (P.builder.reduce store p.context production _).2 = made at hmatch
          generalize (Q.builder.reduce () p.context production _).2 = made' at hmatch
          cases hmatch with
          | error e =>
            cases e with
            | reject e => exact .rejected _
            | undefined => exact .stop _
          | ok c hv =>
            refine .next ⟨hp.position_eq, by rw [hp.states_eq], rfl, .cons hv ?_⟩
            exact List.forall₂_drop _ (hp.mono hview).values

variable (tokens) in
lemma Mirrors.move (token : τ) (action : Action) :
    (P.move tokens store p token action).2.Views (View (P.move tokens store p token action).1)
      (Q.move tokens () q token action).2 := by
  cases action with
  | shift target => exact h.shiftMove hp token target
  | reduce index => exact h.reduceMove hp index
  | accept =>
    rw [Parser.move, Parser.move]
    have hvalues := hp.values
    generalize p.values = values at hvalues
    generalize q.values = values' at hvalues
    cases hvalues with
    | nil => exact .rejected _
    | cons hv _ => exact .accepted hv

end Mirrors

lemma Mirrors.move_view (h : Q.Mirrors P View) {v : ν} {v' : ν'} (token : τ) (action : Action)
    (hv : View store v v') : View (P.move tokens store p token action).1 v v' := by
  rcases move_store P tokens store p token action with hs | hs | ⟨production, hs⟩
  · rwa [hs]
  · rw [hs]
    exact h.builder.shift_view _ _ _ hv
  · rw [hs]
    exact h.builder.reduce_view _ _ _ hv

lemma Mirrors.of_move (h : Q.Mirrors P View) (hp : p.Views (View store) q) {action : Action}
    {m : Move ν κ ε} (hm : P.move tokens store p token action = (store', m)) :
    (∃ m', Q.move tokens () q token action = ((), m') ∧ m.Views (View store') m') ∧
      ∀ v v', View store v v' → View store' v v' := by
  have hmove := h.move tokens hp token action
  have hview : ∀ v v', View store v v' → View (P.move tokens store p token action).1 v v' :=
    fun _ _ => h.move_view token action
  rw [hm] at hmove hview
  exact ⟨⟨_, rfl, hmove⟩, hview⟩

theorem Mirrors.explores (h : Q.Mirrors P View) {k : Nat} {es : List (Ending ν ε)}
    (he : P.Explores tokens store p k store' es) (hp : p.Views (View store) q) :
    (∀ v v', View store v v' → View store' v v') ∧
      ∃ es', Q.Explores tokens () q k () es' ∧ List.Forall₂ (Ending.Views (View store')) es es' := by
  induction he generalizing q with
  | lost hc =>
    refine ⟨fun _ _ => id, _, .lost ((h.cell_eq hp).trans hc), .cons ?_ .nil⟩
    exact hp.position_eq ▸ .rejected _ _
  | empty hc =>
    refine ⟨fun _ _ => id, _, .empty ((h.cell_eq hp).trans hc), .cons ?_ .nil⟩
    rw [h.cellError_eq hp, hp.position_eq]
    exact .rejected _ _
  | exhausted hc hd hne => exact ⟨fun _ _ => id, _, .exhausted ((h.cell_eq hp).trans hc) hd hne, .nil⟩
  | next hc hd hm _ _ ihq ihp =>
    obtain ⟨⟨m', hm', hviews⟩, hmono⟩ := h.of_move hp hm
    cases hviews with
    | next hq =>
      obtain ⟨hmono₁, es₁, he₁, hes₁⟩ := ihq hq
      obtain ⟨hmono₂, es₂, he₂, hes₂⟩ := ihp ((hp.mono hmono).mono hmono₁)
      refine ⟨fun v v' hv => hmono₂ v v' (hmono₁ v v' (hmono v v' hv)), es₁ ++ es₂, ?_, ?_⟩
      · exact .next ((h.cell_eq hp).trans hc) hd hm' he₁ he₂
      · exact List.rel_append (hes₁.imp fun {_ _} he => he.mono hmono₂) hes₂
  | accepted hc hd hm _ ih =>
    obtain ⟨⟨m', hm', hviews⟩, hmono⟩ := h.of_move hp hm
    cases hviews with
    | accepted hv =>
      obtain ⟨hmono₁, es₁, he₁, hes₁⟩ := ih (hp.mono hmono)
      refine ⟨fun v v' hv => hmono₁ v v' (hmono v v' hv), _, .accepted ((h.cell_eq hp).trans hc) hd hm' he₁, ?_⟩
      exact .cons (.accepted (hmono₁ _ _ hv)) hes₁
  | rejected hc hd hm _ ih =>
    obtain ⟨⟨m', hm', hviews⟩, hmono⟩ := h.of_move hp hm
    cases hviews with
    | rejected reason =>
      obtain ⟨hmono₁, es₁, he₁, hes₁⟩ := ih (hp.mono hmono)
      refine ⟨fun v v' hv => hmono₁ v v' (hmono v v' hv), _, .rejected ((h.cell_eq hp).trans hc) hd hm' he₁, ?_⟩
      exact .cons (hp.position_eq ▸ .rejected _ _) hes₁

end Parser

end Search

end Ramify
