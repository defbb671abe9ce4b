import Ramify.Proofs.Search.Reach

namespace Ramify.Search

variable {τ ν κ ε δ : Type}

inductive Ending (ν ε : Type) where
  | accepted (value : ν)
  | rejected (position : Nat) (reason : Option ε)

namespace Ending

def value? : Ending ν ε → Option ν
  | accepted value => some value
  | rejected _ _ => none

def error? : Ending ν ε → Option (Nat × ε)
  | accepted _ => none
  | rejected position reason => reason.map (position, ·)

end Ending

def accepted (es : List (Ending ν ε)) : List ν := es.filterMap Ending.value?

def rejections (es : List (Ending ν ε)) : List (Nat × ε) := es.filterMap Ending.error?

section Endings

variable (value : ν) (position : Nat) (e : ε) (reason : Option ε) (es es' : List (Ending ν ε))

@[simp]
lemma accepted_nil : accepted ([] : List (Ending ν ε)) = [] := rfl

@[simp]
lemma accepted_accepted : accepted (.accepted value :: es) = value :: accepted es := rfl

@[simp]
lemma accepted_rejected : accepted (.rejected position reason :: es) = accepted es := rfl

@[simp]
lemma accepted_append : accepted (es ++ es') = accepted es ++ accepted es' := List.filterMap_append

@[simp]
lemma rejections_nil : rejections ([] : List (Ending ν ε)) = [] := rfl

@[simp]
lemma rejections_accepted : rejections (.accepted value :: es) = rejections es := rfl

@[simp]
lemma rejections_none : rejections (.rejected position none :: es) = rejections es := rfl

@[simp]
lemma rejections_some : rejections (.rejected position (some e) :: es) = (position, e) :: rejections es := rfl

@[simp]
lemma rejections_append : rejections (es ++ es') = rejections es ++ rejections es' := List.filterMap_append

end Endings

namespace Parser

variable (P : Parser τ ν κ ε δ) (tokens : Array τ)

/-- Following a path from its alternative `k` on, the store goes from the first to the second
and the paths end as listed. -/
inductive Explores : δ → Path ν κ → Nat → δ → List (Ending ν ε) → Prop
  | lost {store : δ} {p : Path ν κ} {k : Nat} : P.cell tokens p = none →
      Explores store p k store [.rejected p.position none]
  | empty {store : δ} {p : Path ν κ} {k : Nat} {token : τ} : P.cell tokens p = some (token, []) →
      Explores store p k store [.rejected p.position (some (P.cellError tokens p token))]
  | exhausted {store : δ} {p : Path ν κ} {k : Nat} {token : τ} {actions : List Action} :
      P.cell tokens p = some (token, actions) → actions.drop k = [] → actions ≠ [] →
      Explores store p k store []
  | next {store store₁ store₂ store₃ : δ} {p q : Path ν κ} {k : Nat} {token : τ}
      {actions others : List Action} {action : Action} {es es' : List (Ending ν ε)} :
      P.cell tokens p = some (token, actions) → actions.drop k = action :: others →
      P.move tokens store p token action = (store₁, .next q) → Explores store₁ q 0 store₂ es →
      Explores store₂ p (k + 1) store₃ es' → Explores store p k store₃ (es ++ es')
  | accepted {store store₁ store₂ : δ} {p : Path ν κ} {k : Nat} {token : τ} {value : ν}
      {actions others : List Action} {action : Action} {es : List (Ending ν ε)} :
      P.cell tokens p = some (token, actions) → actions.drop k = action :: others →
      P.move tokens store p token action = (store₁, .accepted value) →
      Explores store₁ p (k + 1) store₂ es → Explores store p k store₂ (.accepted value :: es)
  | rejected {store store₁ store₂ : δ} {p : Path ν κ} {k : Nat} {token : τ} {reason : Option ε}
      {actions others : List Action} {action : Action} {es : List (Ending ν ε)} :
      P.cell tokens p = some (token, actions) → actions.drop k = action :: others →
      P.move tokens store p token action = (store₁, .rejected reason) →
      Explores store₁ p (k + 1) store₂ es → Explores store p k store₂ (.rejected p.position reason :: es)

inductive ExploresAll : δ → List (Path ν κ × Nat) → δ → List (Ending ν ε) → Prop
  | nil {store : δ} : ExploresAll store [] store []
  | cons {store store₁ store₂ : δ} {p : Path ν κ} {k : Nat} {rest : List (Path ν κ × Nat)}
      {es es' : List (Ending ν ε)} : P.Explores tokens store p k store₁ es →
      ExploresAll store₁ rest store₂ es' → ExploresAll store ((p, k) :: rest) store₂ (es ++ es')

def LeadsTo (T : State ν κ ε δ) (store : δ) (paths : List (Path ν κ × Nat)) (candidates : List ν)
    (deepest : Option (Nat × ε)) : Prop :=
  ∃ es, P.ExploresAll tokens store paths T.store es ∧
    T.candidates = (accepted es).reverse ++ candidates ∧ T.deepest = (rejections es).foldl farther deepest

variable {P tokens} {T : State ν κ ε δ} {store store₁ : δ} {p q : Path ν κ} {k : Nat} {token : τ}
  {actions others : List Action} {action : Action} {rest : List (Path ν κ × Nat)} {candidates : List ν}
  {deepest : Option (Nat × ε)}

lemma leadsTo_nil : P.LeadsTo tokens T T.store [] T.candidates T.deepest :=
  ⟨[], .nil, rfl, rfl⟩

lemma leadsTo_cons : P.LeadsTo tokens T store ((p, k) :: rest) candidates deepest ↔
    ∃ store₁ es, P.Explores tokens store p k store₁ es ∧
      P.LeadsTo tokens T store₁ rest ((accepted es).reverse ++ candidates)
        ((rejections es).foldl farther deepest) := by
  constructor
  · rintro ⟨_, he, hv, hr⟩
    cases he with
    | cons hp he => exact ⟨_, _, hp, _, he, by simpa using hv, by simpa using hr⟩
  · rintro ⟨store₁, es, hp, es', he, hv, hr⟩
    exact ⟨es ++ es', .cons hp he, by simpa using hv, by simpa using hr⟩

lemma LeadsTo.next (hc : P.cell tokens p = some (token, actions)) (hd : actions.drop k = action :: others)
    (hm : P.move tokens store p token action = (store₁, .next q))
    (h : P.LeadsTo tokens T store₁ ((q, 0) :: (p, k + 1) :: rest) candidates deepest) :
    P.LeadsTo tokens T store ((p, k) :: rest) candidates deepest := by
  obtain ⟨store₂, es, hq, h⟩ := leadsTo_cons.mp h
  obtain ⟨store₃, es', hp, h⟩ := leadsTo_cons.mp h
  exact leadsTo_cons.mpr ⟨store₃, es ++ es', .next hc hd hm hq hp, by simpa using h⟩

lemma LeadsTo.accepted {value : ν} (hc : P.cell tokens p = some (token, actions))
    (hd : actions.drop k = action :: others)
    (hm : P.move tokens store p token action = (store₁, .accepted value))
    (h : P.LeadsTo tokens T store₁ ((p, k + 1) :: rest) (value :: candidates) deepest) :
    P.LeadsTo tokens T store ((p, k) :: rest) candidates deepest := by
  obtain ⟨store₂, es, hp, h⟩ := leadsTo_cons.mp h
  exact leadsTo_cons.mpr ⟨store₂, _, .accepted hc hd hm hp, by simpa using h⟩

lemma LeadsTo.rejected {reason : Option ε} (hc : P.cell tokens p = some (token, actions))
    (hd : actions.drop k = action :: others)
    (hm : P.move tokens store p token action = (store₁, .rejected reason))
    (h : P.LeadsTo tokens T store₁ ((p, k + 1) :: rest) candidates (noteError deepest p.position reason)) :
    P.LeadsTo tokens T store ((p, k) :: rest) candidates deepest := by
  obtain ⟨store₂, es, hp, h⟩ := leadsTo_cons.mp h
  refine leadsTo_cons.mpr ⟨store₂, _, .rejected hc hd hm hp, ?_⟩
  cases reason <;> exact h

lemma LeadsTo.of_mark {S : State ν κ ε δ} (h : P.LeadsTo tokens T store (S.mark others) candidates deepest)
    (hc : P.cell tokens S.path = some (token, actions)) (hd : actions.drop S.choice = action :: others) :
    P.LeadsTo tokens T store ((S.path, S.choice + 1) :: S.core.pending) candidates deepest := by
  rw [State.mark] at h
  split at h
  · rename_i ho
    have hend : actions.drop (S.choice + 1) = [] :=
      (drop_succ_of_drop hd).trans (List.isEmpty_iff.mp ho)
    exact leadsTo_cons.mpr ⟨store, [], .exhausted hc hend (ne_nil_of_drop hd), h⟩
  · exact h

lemma leadsTo_of_backtrack {fuel : Nat} {S : State ν κ ε δ} {reason : Option ε}
    (ih : ∀ S, P.run tokens fuel S = (T, none) →
      P.LeadsTo tokens T S.store ((S.path, S.choice) :: S.core.pending) S.candidates S.deepest)
    (h : (match P.resume? (P.reject S reason) with
      | some S => P.run tokens fuel S
      | none => (P.reject S reason, none)) = (T, none)) :
    P.LeadsTo tokens T S.core.store S.core.pending S.core.candidates
      (noteError S.core.deepest S.core.path.position reason) := by
  have hcore := core_reject (P := P) S reason
  set R := P.reject S reason
  have hp : R.core.pending = S.core.pending := by rw [hcore]
  have hc : R.candidates = S.candidates := congrArg Core.candidates hcore
  have hd : R.deepest = noteError S.deepest S.path.position reason := congrArg Core.deepest hcore
  have hs : R.store = S.store := congrArg Core.store hcore
  rcases resume?_cases (P := P) R with ⟨hr, hpend⟩ | ⟨S', hr, hpend, hc', hd', hs'⟩
  · rw [hr] at h
    obtain rfl : R = T := congrArg Prod.fst h
    change P.LeadsTo tokens R S.store S.core.pending S.candidates (noteError S.deepest S.path.position reason)
    rw [← hp, hpend, ← hc, ← hd, ← hs]
    exact leadsTo_nil
  · rw [hr] at h
    have hh := ih S' h
    rwa [← hpend, hc', hd', hs', hp, hc, hd, hs] at hh

lemma run_leadsTo {fuel : Nat} {S : State ν κ ε δ} (h : P.run tokens fuel S = (T, none)) :
    P.LeadsTo tokens T S.store ((S.path, S.choice) :: S.core.pending) S.candidates S.deepest := by
  induction fuel generalizing S with
  | zero => cases h
  | succ fuel ih =>
    rw [run_succ] at h
    have ht := P.step_took tokens S.counted
    generalize P.step tokens S.counted = r at h ht
    obtain ⟨S₁, v⟩ := r
    dsimp only at h ht
    generalize hC : S₁.core = C at ht
    cases ht with
    | lost hc =>
      have hh := leadsTo_of_backtrack (fun _ hS => ih hS) h
      rw [hC] at hh
      exact leadsTo_cons.mpr ⟨S.store, _, .lost hc, hh⟩
    | empty hc =>
      have hh := leadsTo_of_backtrack (fun _ hS => ih hS) h
      rw [hC] at hh
      exact leadsTo_cons.mpr ⟨S.store, _, .empty hc, hh⟩
    | exhausted hc hd hne =>
      have hh := leadsTo_of_backtrack (fun _ hS => ih hS) h
      rw [hC] at hh
      exact leadsTo_cons.mpr ⟨S.store, _, .exhausted hc hd hne, hh⟩
    | acted hc hd hm =>
      -- With other actions left the path is marked; otherwise nothing remains to be explored there.
      generalize hmove : P.move tokens _ _ _ _ = m at hm
      cases hm with
      | next =>
        have hh : P.LeadsTo tokens T S₁.core.store ((S₁.core.path, 0) :: S₁.core.pending)
          S₁.core.candidates S₁.core.deepest := ih h
        rw [hC] at hh
        obtain ⟨store₂, es, hq, hh⟩ := leadsTo_cons.mp hh
        exact LeadsTo.next hc hd hmove (leadsTo_cons.mpr ⟨store₂, es, hq, hh.of_mark hc hd⟩)
      | rejected =>
        have hh := leadsTo_of_backtrack (fun _ hS => ih hS) h
        rw [hC] at hh
        exact LeadsTo.rejected hc hd hmove (hh.of_mark hc hd)
      | accepted =>
        have hh := leadsTo_of_backtrack (fun _ hS => ih hS) h
        rw [hC] at hh
        exact LeadsTo.accepted hc hd hmove (hh.of_mark hc hd)
      | overfull => cases h
      | stopped => cases h

lemma Explores.accepted_invariant {I : Path ν κ → Prop} {Q : ν → Prop}
    (hI : ∀ p q, I p → P.MovesTo tokens p q → I q)
    (hQ : ∀ p token actions value values, I p → P.cell tokens p = some (token, actions) →
      Action.accept ∈ actions → p.values = value :: values → Q value)
    {store' : δ} {es : List (Ending ν ε)} (h : P.Explores tokens store p k store' es) (hp : I p) :
    ∀ v ∈ Search.accepted es, Q v := by
  induction h with
  | lost => simp
  | empty => simp
  | exhausted => simp
  | next hc hd hm _ _ ihq ihp =>
    have hmem := mem_of_drop hd
    intro v hv
    rw [accepted_append, List.mem_append] at hv
    exact hv.elim (ihq (hI _ _ hp ⟨_, _, _, _, _, hc, hmem, hm⟩) v) (ihp hp v)
  | accepted hc hd hm _ ih =>
    obtain ⟨rfl, values, hvalues⟩ := accept_accepted hm
    have hmem := mem_of_drop hd
    intro v hv
    rw [accepted_accepted, List.mem_cons] at hv
    rcases hv with rfl | hv
    · exact hQ _ _ _ _ _ hp hc hmem hvalues
    · exact ih hp v hv
  | rejected _ _ _ _ ih => exact ih hp

variable (P tokens) in
inductive Rejects (p : Path ν κ) : Option ε → Prop
  | lost : P.cell tokens p = none → Rejects p none
  | empty {token : τ} : P.cell tokens p = some (token, []) → Rejects p (some (P.cellError tokens p token))
  | refused {token : τ} {actions : List Action} {action : Action} {store store' : δ} {reason : Option ε} :
      P.cell tokens p = some (token, actions) → action ∈ actions →
      P.move tokens store p token action = (store', .rejected reason) → Rejects p reason

lemma Explores.rejected_invariant {I : Path ν κ → Prop} (hI : ∀ p q, I p → P.MovesTo tokens p q → I q)
    {store' : δ} {es : List (Ending ν ε)} (h : P.Explores tokens store p k store' es) (hp : I p) :
    ∀ position reason, .rejected position reason ∈ es →
      ∃ q, I q ∧ q.position = position ∧ P.Rejects tokens q reason := by
  induction h with
  | lost hc =>
    intro position reason hr
    cases List.mem_singleton.mp hr
    exact ⟨_, hp, rfl, .lost hc⟩
  | empty hc =>
    intro position reason hr
    cases List.mem_singleton.mp hr
    exact ⟨_, hp, rfl, .empty hc⟩
  | exhausted => exact nofun
  | next hc hd hm _ _ ihq ihp =>
    intro position reason hr
    have hmem := mem_of_drop hd
    exact (List.mem_append.mp hr).elim (ihq (hI _ _ hp ⟨_, _, _, _, _, hc, hmem, hm⟩) position reason)
      (ihp hp position reason)
  | accepted _ _ _ _ ih =>
    intro position reason hr
    exact ih hp position reason ((List.mem_cons.mp hr).resolve_left nofun)
  | rejected hc hd hm _ ih =>
    intro position reason hr
    rcases List.mem_cons.mp hr with he | hr
    · cases he
      exact ⟨_, hp, rfl, .refused hc (mem_of_drop hd) hm⟩
    · exact ih hp position reason hr

variable (P tokens) in
inductive Branches (position : Nat) : δ × Move ν κ ε → δ → List (Ending ν ε) → Prop
  | next {store store' : δ} {q : Path ν κ} {es : List (Ending ν ε)} : P.Explores tokens store q 0 store' es →
      Branches position (store, .next q) store' es
  | accepted {store : δ} {value : ν} : Branches position (store, .accepted value) store [.accepted value]
  | rejected {store : δ} {reason : Option ε} :
      Branches position (store, .rejected reason) store [.rejected position reason]

lemma Explores.branches {store' : δ} {es : List (Ending ν ε)} (h : P.Explores tokens store p k store' es)
    (hc : P.cell tokens p = some (token, actions)) (hd : actions.drop k = action :: others) :
    ∃ store₁ es₁ es₂, P.Branches tokens p.position (P.move tokens store p token action) store₁ es₁ ∧
      P.Explores tokens store₁ p (k + 1) store' es₂ ∧ es = es₁ ++ es₂ := by
  cases h with
  | lost hc' =>
    rw [hc] at hc'
    cases hc'
  | empty hc' =>
    rw [hc] at hc'
    cases hc'
    rw [List.drop_nil] at hd
    cases hd
  | exhausted hc' hd' _ =>
    rw [hc] at hc'
    cases hc'
    rw [hd] at hd'
    cases hd'
  | next hc' hd' hm hq hp =>
    rw [hc] at hc'
    cases hc'
    rw [hd] at hd'
    cases hd'
    rw [hm]
    exact ⟨_, _, _, .next hq, hp, rfl⟩
  | accepted hc' hd' hm hp =>
    rw [hc] at hc'
    cases hc'
    rw [hd] at hd'
    cases hd'
    rw [hm]
    exact ⟨_, _, _, .accepted, hp, rfl⟩
  | rejected hc' hd' hm hp =>
    rw [hc] at hc'
    cases hc'
    rw [hd] at hd'
    cases hd'
    rw [hm]
    exact ⟨_, _, _, .rejected, hp, rfl⟩

lemma accepted_subset {es es' : List (Ending ν ε)} (h : es ⊆ es') : Search.accepted es ⊆ Search.accepted es' :=
  List.filterMap_subset _ h

lemma rejections_subset {es es' : List (Ending ν ε)} (h : es ⊆ es') : rejections es ⊆ rejections es' :=
  List.filterMap_subset _ h

lemma Explores.alternative {store' : δ} {es : List (Ending ν ε)} (h : P.Explores tokens store p k store' es)
    (hc : P.cell tokens p = some (token, actions)) (ha : action ∈ actions.drop k) :
    ∃ store₁ store₂ es₁, P.Branches tokens p.position (P.move tokens store₁ p token action) store₂ es₁ ∧
      es₁ ⊆ es := by
  generalize hd : actions.drop k = rest at ha
  induction rest generalizing store k es with
  | nil => cases ha
  | cons first others ih =>
    obtain ⟨store₁, es₁, es₂, hb, hrest, rfl⟩ := h.branches hc hd
    rcases List.mem_cons.mp ha with rfl | ha
    · exact ⟨store, store₁, es₁, hb, List.subset_append_left _ _⟩
    · obtain ⟨store₂, store₃, es₃, hb', hsub⟩ := ih hrest (drop_succ_of_drop hd) ha
      exact ⟨store₂, store₃, es₃, hb', List.subset_append_of_subset_right _ hsub⟩

lemma Explores.accepted_nil {store' : δ} {es : List (Ending ν ε)} (h : P.Explores tokens store p k store' es)
    (hnil : ∀ token actions, P.cell tokens p = some (token, actions) → actions.drop k = []) :
    Search.accepted es = [] := by
  cases h with
  | lost => rfl
  | empty => rfl
  | exhausted => rfl
  | next hc hd => cases (hnil _ _ hc).symm.trans hd
  | accepted hc hd => cases (hnil _ _ hc).symm.trans hd
  | rejected hc hd => cases (hnil _ _ hc).symm.trans hd

lemma run_ne_noParse {fuel : Nat} {S : State ν κ ε δ} {failure : Failure ε}
    (h : P.run tokens fuel S = (T, some failure)) (e : ε) : failure ≠ .noParse e := by
  rcases run_failure h with ⟨_, rfl⟩ | ⟨_, rfl⟩ | ⟨U, token, action, store, _, _, hm⟩
  · exact nofun
  · exact nofun
  · obtain ⟨_, _, _, _, _, _, _, ⟨_, rfl⟩ | ⟨rfl, _⟩⟩ := move_stop hm <;> exact nofun

lemma parse_result (before : Stats) (store : δ) (hne : tokens ≠ #[]) :
    (∃ T failure, P.run tokens P.limits.maxSteps (P.start store) = (T, some failure) ∧
      (P.parse before store tokens).result = .error failure) ∨
    ∃ T, P.run tokens P.limits.maxSteps (P.start store) = (T, none) ∧
      (P.parse before store tokens).result = P.conclude tokens T ∧ (P.parse before store tokens).store = T.store := by
  rw [parse, if_neg (by simpa using hne)]
  rcases P.run tokens P.limits.maxSteps (P.start store) with ⟨T, failure | _⟩
  · exact Or.inr ⟨T, rfl, rfl, rfl⟩
  · exact Or.inl ⟨T, _, rfl, rfl⟩

lemma run_explores (h : P.run tokens P.limits.maxSteps (P.start store) = (T, none)) :
    ∃ es, P.Explores tokens store (P.start store).path 0 T.store es ∧
      T.candidates = (accepted es).reverse ∧ T.deepest = (rejections es).foldl farther none := by
  obtain ⟨_, es, hp, es', he, hc, hd⟩ := leadsTo_cons.mp (run_leadsTo h)
  cases he with
  | nil => exact ⟨es, hp, by simpa [start] using hc, hd⟩

lemma conclude_cases (T : State ν κ ε δ) :
    (T.candidates ≠ [] ∧ P.conclude tokens T = .ok T.candidates.reverse) ∨
      T.candidates = [] ∧ ((∃ position e, T.deepest = some (position, e) ∧
        P.conclude tokens T = .error (.noParse e)) ∨ T.deepest = none ∧
          ((∃ token, tokens[tokens.size - 1]? = some token ∧
            P.conclude tokens T = .error (.noParse (P.builder.syntaxError token (tokens.size - 1)))) ∨
          tokens = #[] ∧ P.conclude tokens T = .error .emptyInput)) := by
  cases hc : T.candidates with
  | cons v vs => exact Or.inl ⟨by simp, by rw [conclude, hc]⟩
  | nil =>
    refine Or.inr ⟨rfl, ?_⟩
    rcases hd : T.deepest with _ | ⟨position, e⟩
    · refine Or.inr ⟨rfl, ?_⟩
      cases ht : tokens[tokens.size - 1]? with
      | some token => exact Or.inl ⟨token, rfl, by rw [conclude, hc, hd]; simp only [ht]⟩
      | none =>
        have hsize := Array.getElem?_eq_none_iff.mp ht
        refine Or.inr ⟨Array.eq_empty_of_size_eq_zero (by omega), ?_⟩
        rw [conclude, hc, hd]
        simp only [ht]
    · exact Or.inl ⟨position, e, rfl, by rw [conclude, hc, hd]⟩

variable (P) in
lemma conclude_of_ne (hne : tokens ≠ #[]) (T : State ν κ ε δ) :
    T.candidates ≠ [] ∧ P.conclude tokens T = .ok T.candidates.reverse ∨
      T.candidates = [] ∧ ∃ e, P.conclude tokens T = .error (.noParse e) := by
  rcases conclude_cases T with hok | ⟨hnil, ⟨_, e, _, hk⟩ | ⟨_, ⟨_, _, hk⟩ | ⟨hempty, _⟩⟩⟩
  · exact Or.inl hok
  · exact Or.inr ⟨hnil, e, hk⟩
  · exact Or.inr ⟨hnil, _, hk⟩
  · exact absurd hempty hne

lemma parse_ok {before : Stats} {found : List ν} (h : (P.parse before store tokens).result = .ok found) :
    found ≠ [] ∧ ∃ es, P.Explores tokens store (P.start store).path 0 (P.parse before store tokens).store es ∧
      accepted es = found := by
  have hne : tokens ≠ #[] := by
    rintro rfl
    cases h
  rcases parse_result before store hne with ⟨_, _, _, hr⟩ | ⟨T, hT, hr, hstore⟩
  · rw [h] at hr
    cases hr
  · obtain ⟨es, he, hc, _⟩ := run_explores hT
    rw [h] at hr
    rcases conclude_cases T with ⟨hsome, hk⟩ | ⟨_, ⟨_, _, _, hk⟩ | ⟨_, ⟨_, _, hk⟩ | ⟨_, hk⟩⟩⟩
    · rw [hk] at hr
      obtain rfl := Except.ok.inj hr
      exact ⟨by simpa using hsome, es, hstore.symm ▸ he, by rw [hc, List.reverse_reverse]⟩
    all_goals
      rw [hk] at hr
      cases hr

lemma parse_noParse {before : Stats} {e : ε} (h : (P.parse before store tokens).result = .error (.noParse e)) :
    ∃ store' es, P.Explores tokens store (P.start store).path 0 store' es ∧ accepted es = [] ∧
      ((∃ position, (rejections es).foldl farther none = some (position, e)) ∨
        (rejections es).foldl farther none = none ∧ ∃ token, tokens[tokens.size - 1]? = some token ∧
          e = P.builder.syntaxError token (tokens.size - 1)) := by
  have hne : tokens ≠ #[] := by
    rintro rfl
    cases h
  rcases parse_result before store hne with ⟨_, failure, hT, hr⟩ | ⟨T, hT, hr, _⟩
  · rw [h] at hr
    cases hr
    exact absurd rfl (run_ne_noParse hT e)
  · obtain ⟨es, he, hc, hd⟩ := run_explores hT
    rw [h] at hr
    rcases conclude_cases T with ⟨_, hk⟩ | ⟨hnil, hcase⟩
    · rw [hk] at hr
      cases hr
    · rw [hc, List.reverse_eq_nil_iff] at hnil
      refine ⟨T.store, es, he, hnil, ?_⟩
      rw [← hd]
      rcases hcase with ⟨position, e', hd', hk⟩ | ⟨hd', ⟨token, ht, hk⟩ | ⟨_, hk⟩⟩
      · rw [hk] at hr
        cases hr
        exact Or.inl ⟨position, hd'⟩
      · rw [hk] at hr
        cases hr
        exact Or.inr ⟨hd', token, ht, rfl⟩
      · rw [hk] at hr
        cases hr

lemma parse_failure {before : Stats} {failure : Failure ε}
    (h : (P.parse before store tokens).result = .error failure) :
    (tokens = #[] ∨ ∃ e, failure = .noParse e) ∨ (∃ steps, failure = .searchLimit steps) ∨
      (∃ limit, failure = .candidateLimit limit) ∨ ∃ S token action store', P.Reaches tokens (P.start store) S ∧
        P.Chooses tokens S token action ∧ P.move tokens S.store S.path token action = (store', .stop failure) := by
  by_cases hne : tokens = #[]
  · exact Or.inl (Or.inl hne)
  rcases parse_result before store hne with ⟨T, _, hT, hr⟩ | ⟨T, hT, hr, _⟩
  · obtain rfl := Except.error.inj (h.symm.trans hr)
    exact Or.inr (run_failure hT)
  · rw [h] at hr
    rcases conclude_cases T with ⟨_, hk⟩ | ⟨_, ⟨_, e, _, hk⟩ | ⟨_, ⟨token, _, hk⟩ | ⟨hempty, _⟩⟩⟩
    · rw [hk] at hr
      cases hr
    · rw [hk] at hr
      exact Or.inl (Or.inr ⟨e, Except.error.inj hr⟩)
    · rw [hk] at hr
      exact Or.inl (Or.inr ⟨_, Except.error.inj hr⟩)
    · exact absurd hempty hne

lemma parse_missingGoto {before : Stats} {state n : Nat}
    (h : (P.parse before store tokens).result = .error (.missingGoto state n)) :
    ∃ S token index production exposed, P.Reaches tokens (P.start store) S ∧
      P.Chooses tokens S token (.reduce index) ∧ P.table.productions[index]? = some production ∧
      S.path.states[production.rhs.length]? = some exposed ∧
      P.table.goto? exposed production.lhs = none := by
  rcases parse_failure h with (rfl | ⟨_, hf⟩) | ⟨_, hf⟩ | ⟨_, hf⟩ | ⟨S, token, action, store', hS, hc, hm⟩
  · cases h
  · cases hf
  · cases hf
  · cases hf
  · obtain ⟨index, production, exposed, rfl, hp, hs, _, ⟨hg, hf⟩ | ⟨hu, _⟩⟩ := move_stop hm
    · obtain ⟨rfl, rfl⟩ := Failure.missingGoto.inj hf
      exact ⟨S, token, index, production, _, hS, hc, hp, hs, hg⟩
    · cases hu

end Parser

end Ramify.Search
