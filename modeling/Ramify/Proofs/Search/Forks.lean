import Ramify.Proofs.Search.Explore

namespace Ramify.Search.Parser

variable {τ ν κ ε δ : Type}

def Barren (P : Parser τ ν κ ε δ) (tokens : Array τ) (p : Path ν κ) (token : τ) (action : Action) : Prop :=
  ∀ store store' es, P.Branches tokens p.position (P.move tokens store p token action) store' es →
    Search.accepted es = []

variable {P : Parser τ ν κ ε δ} {tokens : Array τ} {I : Path ν κ → Prop} {p q : Path ν κ} {k : Nat} {token : τ}
  {action : Action} {store store' store₁ : δ} {es : List (Ending ν ε)}

lemma Barren.next (h : P.Barren tokens p token action) (hm : P.move tokens store p token action = (store₁, .next q))
    (hq : P.Explores tokens store₁ q 0 store' es) : Search.accepted es = [] :=
  h store store' es (hm ▸ Branches.next hq)

lemma Barren.ne_accepted (h : P.Barren tokens p token action) {value : ν} :
    P.move tokens store p token action ≠ (store₁, .accepted value) := fun hm =>
  List.cons_ne_nil _ _ (h store store₁ [.accepted value] (hm ▸ Branches.accepted))

lemma Explores.accepted_nil_of_barren (h : P.Explores tokens store p k store' es)
    (hbarren : ∀ token actions, P.cell tokens p = some (token, actions) → ∀ action ∈ actions.drop k,
      P.Barren tokens p token action) : Search.accepted es = [] := by
  have hrest : ∀ {k : Nat} {p : Path ν κ}, (∀ token actions, P.cell tokens p = some (token, actions) →
      ∀ action ∈ actions.drop k, P.Barren tokens p token action) → ∀ token actions,
      P.cell tokens p = some (token, actions) → ∀ action ∈ actions.drop (k + 1), P.Barren tokens p token action :=
    fun h token actions hc action ha => h token actions hc action ((List.drop_subset_drop_left _ (Nat.le_succ _)) ha)
  induction h with
  | lost => rfl
  | empty => rfl
  | exhausted => rfl
  | next hc hd hm hq _ _ ihp =>
    have hfirst := hbarren _ _ hc _ (hd ▸ List.mem_cons_self)
    rw [accepted_append, hfirst.next hm hq, ihp (hrest hbarren), List.append_nil]
  | accepted hc hd hm _ _ => exact absurd hm (hbarren _ _ hc _ (hd ▸ List.mem_cons_self)).ne_accepted
  | rejected _ _ _ _ ih =>
    rw [accepted_rejected]
    exact ih (hrest hbarren)

structure Forks (P : Parser τ ν κ ε δ) (tokens : Array τ) (I : Path ν κ → Prop) : Prop where
  keeps : ∀ p q, I p → P.MovesTo tokens p q → I q
  barren : ∀ p token actions, I p → P.cell tokens p = some (token, actions) →
    actions.Pairwise fun a b => P.Barren tokens p token a ∨ P.Barren tokens p token b

lemma Forks.accepted_length_le (hF : P.Forks tokens I) (h : P.Explores tokens store p k store' es) (hp : I p) :
    (Search.accepted es).length ≤ 1 := by
  -- Behind an action that comes to something all others are barren.
  have hothers : ∀ {p : Path ν κ} {k : Nat} {token : τ} {actions others : List Action} {action : Action}, I p →
      P.cell tokens p = some (token, actions) → actions.drop k = action :: others →
      ¬ P.Barren tokens p token action → ∀ {store store' : δ} {es : List (Ending ν ε)},
        P.Explores tokens store p (k + 1) store' es → Search.accepted es = [] := by
    intro p k token actions others action hp hc hd hn store store' es h
    refine h.accepted_nil_of_barren fun token' actions' hc' b hb => ?_
    obtain ⟨rfl, rfl⟩ := Prod.mk.inj (Option.some.inj (hc.symm.trans hc'))
    have hpairs := (hF.barren p token actions hp hc).sublist (List.drop_sublist k actions)
    rw [hd, List.pairwise_cons] at hpairs
    rw [drop_succ_of_drop hd] at hb
    exact (hpairs.1 b hb).resolve_left hn
  induction h with
  | lost => exact Nat.zero_le 1
  | empty => exact Nat.zero_le 1
  | exhausted => exact Nat.zero_le 1
  | @next _ _ _ _ p q k token _ _ action es es' hc hd hm hq hrest ihq ihp =>
    rw [accepted_append, List.length_append]
    by_cases hb : P.Barren tokens p token action
    · rw [hb.next hm hq, List.length_nil, Nat.zero_add]
      exact ihp hp
    · rw [hothers hp hc hd hb hrest, List.length_nil, Nat.add_zero]
      exact ihq (hF.keeps _ _ hp ⟨_, _, _, _, _, hc, mem_of_drop hd, hm⟩)
  | accepted hc hd hm hrest _ =>
    rw [accepted_accepted, hothers hp hc hd (fun hb => hb.ne_accepted hm) hrest, List.length_singleton]
  | rejected _ _ _ _ ih =>
    rw [accepted_rejected]
    exact ih hp

end Ramify.Search.Parser
