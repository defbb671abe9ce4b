import Ramify.Proofs.Search.Explore

namespace Ramify

structure Builder.Restricts {τ ν κ ε : Type} (B L : Builder τ ν κ ε Unit)
    (Permits : κ → Production → List ν → Prop) : Prop where
  terminal_eq : B.terminal = L.terminal
  initial_eq : B.initial = L.initial
  shift_eq : B.shift = L.shift
  reduce_ok (c : κ) (p : Production) (children : List ν) (r : κ × ν) :
    B.reduce () c p children = ((), .ok r) ↔ Permits c p children ∧ L.reduce () c p children = ((), .ok r)

namespace Search.Parser

variable {τ ν κ ε δ : Type}

def Accepts (P : Parser τ ν κ ε δ) (tokens : Array τ) (store : δ) (values : List ν) : Prop :=
  ∃ p token actions, Relation.ReflTransGen (P.MovesTo tokens) (P.start store).path p ∧
    P.cell tokens p = some (token, actions) ∧ Action.accept ∈ actions ∧ p.values = values

variable {P L : Parser τ ν κ ε Unit} {tokens : Array τ} {Permits : κ → Production → List ν → Prop}
  {p q : Path ν κ} {token : τ} {actions : List Action} {action : Action} {es es' : List (Ending ν ε)}

lemma Explores.of_movesTo (h : P.Explores tokens () p 0 () es) (hm : P.MovesTo tokens p q) :
    ∃ es', P.Explores tokens () q 0 () es' ∧ Search.accepted es' ⊆ Search.accepted es := by
  obtain ⟨token, actions, action, _, _, hc, ha, hm⟩ := hm
  obtain ⟨_, _, es₁, hb, hsub⟩ := h.alternative hc (show action ∈ actions.drop 0 from ha)
  rw [hm] at hb
  cases hb with
  | next hq => exact ⟨es₁, hq, accepted_subset hsub⟩

lemma Explores.mem_accepted_iff (h : P.Explores tokens () (P.start ()).path 0 () es) {v : ν} :
    v ∈ Search.accepted es ↔ ∃ values, P.Accepts tokens () (v :: values) := by
  constructor
  · exact h.accepted_invariant (Q := fun v => ∃ values, P.Accepts tokens () (v :: values))
      (I := Relation.ReflTransGen (P.MovesTo tokens) (P.start ()).path) (fun _ _ hp hm => hp.tail hm)
      (fun p token actions value values hp hc ha hv => ⟨values, p, token, actions, hp, hc, ha, hv⟩) .refl v
  · rintro ⟨values, p, token, actions, hp, hc, ha, hv⟩
    have hfrom : ∃ es', P.Explores tokens () p 0 () es' ∧ Search.accepted es' ⊆ Search.accepted es := by
      clear hc hv
      induction hp with
      | refl => exact ⟨es, h, fun _ => id⟩
      | tail _ hm ih =>
        obtain ⟨es₁, hes₁, hsub₁⟩ := ih
        obtain ⟨es₂, hes₂, hsub₂⟩ := hes₁.of_movesTo hm
        exact ⟨es₂, hes₂, List.Subset.trans hsub₂ hsub₁⟩
    obtain ⟨es', hes', hsub⟩ := hfrom
    obtain ⟨_, _, es₁, hb, hsub₁⟩ := hes'.alternative hc (show Action.accept ∈ actions.drop 0 from ha)
    rw [move, hv] at hb
    cases hb with
    | accepted => exact hsub (accepted_subset hsub₁ List.mem_cons_self)

structure Restricts (P L : Parser τ ν κ ε Unit) (Permits : κ → Production → List ν → Prop) : Prop where
  table_eq : P.table = L.table
  builder : P.builder.Restricts L.builder Permits

def Allows (L : Parser τ ν κ ε Unit) (Permits : κ → Production → List ν → Prop) (p : Path ν κ) : Action → Prop
  | .reduce index => ∀ production, L.table.productions[index]? = some production →
      Permits p.context production (p.values.take production.rhs.length).reverse
  | _ => True

section Restricts

variable (h : P.Restricts L Permits)

include h

lemma Restricts.start_eq : (P.start ()).path = (L.start ()).path := by
  rw [start, start, h.builder.initial_eq]

lemma Restricts.cell_eq (p : Path ν κ) : P.cell tokens p = L.cell tokens p := by
  have hopt : P.options = L.options := by
    funext state token
    rw [options, options, h.builder.terminal_eq, h.table_eq]
  rw [cell, cell, hopt]

lemma Restricts.move_next_iff : P.move tokens () p token action = ((), .next q) ↔
    L.move tokens () p token action = ((), .next q) ∧ L.Allows Permits p action := by
  cases action with
  | shift target =>
    constructor
    · intro hm
      obtain ⟨hlt, context, value, hb, rfl⟩ := shift_next hm
      exact ⟨move_shift hlt (h.builder.shift_eq ▸ hb), trivial⟩
    · rintro ⟨hm, _⟩
      obtain ⟨hlt, context, value, hb, rfl⟩ := shift_next hm
      exact move_shift hlt (h.builder.shift_eq ▸ hb)
  | reduce index =>
    constructor
    · intro hm
      obtain ⟨production, exposed, target, context, value, hp, he, hv, hg, hb, rfl⟩ := reduce_next hm
      rw [h.table_eq] at hp hg
      obtain ⟨hpermits, hb⟩ := (h.builder.reduce_ok _ _ _ _).mp hb
      refine ⟨move_reduce hp he hv hg hb, fun production' hp' => ?_⟩
      obtain rfl := Option.some.inj (hp.symm.trans hp')
      exact hpermits
    · rintro ⟨hm, hallows⟩
      obtain ⟨production, exposed, target, context, value, hp, he, hv, hg, hb, rfl⟩ := reduce_next hm
      have hb' := (h.builder.reduce_ok _ _ _ _).mpr ⟨hallows production hp, hb⟩
      rw [← h.table_eq] at hp hg
      exact move_reduce hp he hv hg hb'
  | accept => exact ⟨fun hm => absurd hm accept_ne_next, fun hm => absurd hm.1 accept_ne_next⟩

lemma Restricts.movesTo (hm : P.MovesTo tokens p q) : L.MovesTo tokens p q := by
  obtain ⟨token, actions, action, _, _, hc, ha, hm⟩ := hm
  exact ⟨token, actions, action, (), (), h.cell_eq p ▸ hc, ha, (h.move_next_iff.mp hm).1⟩

end Restricts

/-- On the paths of `L`, where `I` holds, the values on the stack tell whether every reduction so
far was permitted. -/
structure Tells (L : Parser τ ν κ ε Unit) (tokens : Array τ) (Permits : κ → Production → List ν → Prop)
    (I : Path ν κ → Prop) (Pass : List ν → Prop) : Prop where
  start : I (L.start ()).path
  keeps : ∀ {p q : Path ν κ}, I p → L.MovesTo tokens p q → I q
  nil : Pass []
  move : ∀ {p q : Path ν κ} {token : τ} {actions : List Action} {action : Action}, I p →
    L.cell tokens p = some (token, actions) → action ∈ actions →
    L.move tokens () p token action = ((), .next q) →
    (Pass q.values ↔ Pass p.values ∧ L.Allows Permits p action)

variable {I : Path ν κ → Prop} {Pass : List ν → Prop}

theorem Tells.accepts_iff (ht : L.Tells tokens Permits I Pass) (h : P.Restricts L Permits) {values : List ν} :
    P.Accepts tokens () values ↔ L.Accepts tokens () values ∧ Pass values := by
  constructor
  · rintro ⟨p, token, actions, hp, hc, ha, rfl⟩
    have hpath : Relation.ReflTransGen (L.MovesTo tokens) (L.start ()).path p ∧ I p ∧ Pass p.values := by
      clear hc
      rw [h.start_eq] at hp
      induction hp with
      | refl => exact ⟨.refl, ht.start, ht.nil⟩
      | tail _ hm ih =>
        obtain ⟨hL, hI, hpass⟩ := ih
        have hmL := h.movesTo hm
        obtain ⟨token, actions, action, _, _, hc, ha, hm⟩ := hm
        rw [h.cell_eq] at hc
        obtain ⟨hm, hallows⟩ := h.move_next_iff.mp hm
        exact ⟨hL.tail hmL, ht.keeps hI hmL, (ht.move hI hc ha hm).mpr ⟨hpass, hallows⟩⟩
    exact ⟨⟨p, token, actions, hpath.1, h.cell_eq p ▸ hc, ha, rfl⟩, hpath.2.2⟩
  · rintro ⟨⟨p, token, actions, hp, hc, ha, rfl⟩, hpass⟩
    refine ⟨p, token, actions, ?_, (h.cell_eq p).trans hc, ha, rfl⟩
    -- What is permitted in the end was permitted all the way.
    clear hc
    rw [h.start_eq]
    have hI : ∀ {p}, Relation.ReflTransGen (L.MovesTo tokens) (L.start ()).path p → I p := by
      intro p hp
      induction hp with
      | refl => exact ht.start
      | tail _ hm ih => exact ht.keeps ih hm
    induction hp with
    | refl => exact .refl
    | tail hp hm ih =>
      obtain ⟨token, actions, action, _, _, hc, ha, hm⟩ := hm
      obtain ⟨hpass, hallows⟩ := (ht.move (hI hp) hc ha hm).mp hpass
      exact (ih hpass).tail ⟨token, actions, action, (), (), (h.cell_eq _).trans hc, ha,
        h.move_next_iff.mpr ⟨hm, hallows⟩⟩

section Filter

variable [DecidablePred Pass]

lemma Tells.filter_eq_nil (ht : L.Tells tokens Permits I Pass)
    (hone : ∀ {p token actions}, I p → L.cell tokens p = some (token, actions) → Action.accept ∈ actions →
      p.values.length ≤ 1) {s s' : Unit} (hL : L.Explores tokens s p 0 s' es) (hI : I p)
    (hpass : ¬Pass p.values) : ((Search.accepted es).filter fun v => Pass [v]) = [] := by
  have hfail : ∀ v ∈ Search.accepted es, ¬Pass [v] := by
    refine hL.accepted_invariant (I := fun p => I p ∧ ¬Pass p.values) ?_ ?_ ⟨hI, hpass⟩
    · rintro p q ⟨hI, hpass⟩ hm
      have hq := ht.keeps hI hm
      obtain ⟨token, actions, action, _, _, hc, ha, hm⟩ := hm
      exact ⟨hq, fun hpq => hpass ((ht.move hI hc ha hm).mp hpq).1⟩
    · rintro p token actions value values ⟨hI, hpass⟩ hc ha hv
      have hle := hone hI hc ha
      rw [hv, List.length_cons] at hle
      obtain rfl : values = [] := List.eq_nil_of_length_eq_zero (by omega)
      exact hv ▸ hpass
  exact List.filter_eq_nil_iff.mpr fun v hv => by simpa using hfail v hv

theorem Tells.accepted_eq_filter (ht : L.Tells tokens Permits I Pass) (h : P.Restricts L Permits)
    (hone : ∀ {p token actions}, I p → L.cell tokens p = some (token, actions) → Action.accept ∈ actions →
      p.values.length ≤ 1) {k : Nat} {s s' t t' : Unit}
    (hL : L.Explores tokens s p k s' es) (hP : P.Explores tokens t p k t' es') (hI : I p) (hpass : Pass p.values) :
    Search.accepted es' = (Search.accepted es).filter fun v => Pass [v] := by
  induction hL generalizing t es' with
  | lost hc =>
    refine hP.accepted_nil fun token actions hc' => ?_
    rw [h.cell_eq, hc] at hc'
    cases hc'
  | empty hc =>
    refine hP.accepted_nil fun token actions hc' => ?_
    rw [h.cell_eq, hc] at hc'
    cases hc'
    exact List.drop_nil
  | exhausted hc hd _ =>
    refine hP.accepted_nil fun token actions hc' => ?_
    rw [h.cell_eq, hc] at hc'
    cases hc'
    exact hd
  | next hc hd hm hq hp ihq ihp =>
    have hmem := mem_of_drop hd
    obtain ⟨_, es₁, es₂, hbranch, hrest, rfl⟩ := hP.branches ((h.cell_eq _).trans hc) hd
    rw [Search.accepted_append, Search.accepted_append, List.filter_append, ihp hrest hI hpass]
    refine congrArg (· ++ _) ?_
    have hIq := ht.keeps hI ⟨_, _, _, _, _, hc, hmem, hm⟩
    generalize hmP : P.move tokens _ _ _ _ = m at hbranch
    cases hbranch with
    | next hq' =>
      obtain ⟨hm', hallows⟩ := h.move_next_iff.mp hmP
      cases hm.symm.trans hm'
      exact ihq hq' hIq ((ht.move hI hc hmem hm).mpr ⟨hpass, hallows⟩)
    | accepted =>
      obtain ⟨rfl, _⟩ := accept_accepted hmP
      exact absurd hm accept_ne_next
    | rejected =>
      have hfail : ¬Pass _ := fun hpq => by
        have hnext := h.move_next_iff.mpr ⟨hm, ((ht.move hI hc hmem hm).mp hpq).2⟩
        rw [hmP] at hnext
        cases hnext
      rw [ht.filter_eq_nil hone hq hIq hfail]
      rfl
  | accepted hc hd hm hp ih =>
    have hmem := mem_of_drop hd
    obtain ⟨_, es₁, es₂, hbranch, hrest, rfl⟩ := hP.branches ((h.cell_eq _).trans hc) hd
    obtain ⟨rfl, values, hv⟩ := accept_accepted hm
    have hle := hone hI hc hmem
    rw [hv, List.length_cons] at hle
    obtain rfl : values = [] := List.eq_nil_of_length_eq_zero (by omega)
    rw [move_accept hv] at hbranch
    cases hbranch with
    | accepted =>
      rw [Search.accepted_append, Search.accepted_accepted, Search.accepted_accepted, ih hrest hI hpass,
        List.filter_cons_of_pos (by simpa using hv ▸ hpass)]
      rfl
  | rejected hc hd hm hp ih =>
    obtain ⟨_, es₁, es₂, hbranch, hrest, rfl⟩ := hP.branches ((h.cell_eq _).trans hc) hd
    rw [Search.accepted_append, Search.accepted_rejected, ih hrest hI hpass]
    generalize hmP : P.move tokens _ _ _ _ = m at hbranch
    cases hbranch with
    | next =>
      obtain ⟨hm', _⟩ := h.move_next_iff.mp hmP
      cases hm.symm.trans hm'
    | accepted =>
      obtain ⟨rfl, values, hv⟩ := accept_accepted hmP
      rw [move_accept hv] at hm
      cases hm
    | rejected => rfl

end Filter

end Search.Parser

end Ramify
