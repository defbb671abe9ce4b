import Ramify.Proofs.Search.Explore

/-! Plain recursive search. At each path the actions of its cell are taken in order, each from
this very path, and the endings are put one after the other; there is nothing to save and
nothing to restore. With a builder whose answers do not depend on the store, the search with
checkpoints finds the same. The recursion need not end, so it is given a depth, and the
endings are those of all depths that are great enough. -/

namespace Ramify

structure Builder.Pure {τ ν κ ε δ : Type} (B : Builder τ ν κ ε δ) : Prop where
  shift_eq : ∀ s s' c token position, (B.shift s c token position).2 = (B.shift s' c token position).2
  reduce_eq : ∀ s s' c production children,
    (B.reduce s c production children).2 = (B.reduce s' c production children).2

namespace Search

variable {τ ν κ ε δ : Type}

namespace Parser

variable (P : Parser τ ν κ ε δ) (tokens : Array τ)

/-- All endings of the paths that go on from a path, in the order of the actions; none if a
path runs into a missing entry of the table, or takes `depth` actions without an end. -/
def explore (store : δ) : Nat → Path ν κ → Option (List (Ending ν ε))
  | 0, _ => none
  | depth + 1, p =>
    match P.cell tokens p with
    | none => some [.rejected p.position none]
    | some (token, []) => some [.rejected p.position (some (P.cellError tokens p token))]
    | some (token, actions) => do
      let found ← actions.mapM fun action =>
        match (P.move tokens store p token action).2 with
        | .next q => explore store depth q
        | .accepted value => some [.accepted value]
        | .rejected reason => some [.rejected p.position reason]
        | .stop _ => none
      return found.flatten

def Yields (store : δ) (p : Path ν κ) (es : List (Ending ν ε)) : Prop :=
  ∃ depth, ∀ n ≥ depth, P.explore tokens store n p = some es

def exploreMove (store : δ) (depth : Nat) (p : Path ν κ) : Move ν κ ε → Option (List (Ending ν ε))
  | .next q => P.explore tokens store depth q
  | .accepted value => some [.accepted value]
  | .rejected reason => some [.rejected p.position reason]
  | .stop _ => none

def exploreActions (store : δ) (depth : Nat) (p : Path ν κ) (token : τ) (actions : List Action) :
    Option (List (Ending ν ε)) :=
  (actions.mapM fun action => P.exploreMove tokens store depth p (P.move tokens store p token action).2).map
    List.flatten

variable {P tokens} {s store : δ} {depth : Nat} {p : Path ν κ} {token : τ} {actions : List Action}
  {es es' : List (Ending ν ε)}

lemma Yields.unique (h : P.Yields tokens store p es) (h' : P.Yields tokens store p es') : es = es' := by
  obtain ⟨n, hn⟩ := h
  obtain ⟨n', hn'⟩ := h'
  have hmax := hn (max n n') (le_max_left n n')
  rw [hn' (max n n') (le_max_right n n')] at hmax
  exact (Option.some.inj hmax).symm

lemma explore_of_lost (h : P.cell tokens p = none) :
    P.explore tokens store (depth + 1) p = some [.rejected p.position none] := by
  rw [explore, h]

lemma explore_of_empty (h : P.cell tokens p = some (token, [])) : P.explore tokens store (depth + 1) p =
    some [.rejected p.position (some (P.cellError tokens p token))] := by
  rw [explore, h]

lemma explore_of_actions (h : P.cell tokens p = some (token, actions)) (hne : actions ≠ []) :
    P.explore tokens store (depth + 1) p = P.exploreActions tokens store depth p token actions := by
  obtain ⟨action, rest, rfl⟩ := List.exists_cons_of_ne_nil hne
  rw [explore, h, exploreActions, Option.map_eq_bind]
  dsimp only
  refine congrArg₂ Option.bind (congrArg₂ List.mapM (funext fun action => ?_) rfl) rfl
  cases (P.move tokens store p token action).2 <;> rfl

lemma exploreActions_cons {action : Action}
    (h : P.exploreMove tokens store depth p (P.move tokens store p token action).2 = some es)
    (h' : P.exploreActions tokens store depth p token actions = some es') :
    P.exploreActions tokens store depth p token (action :: actions) = some (es ++ es') := by
  obtain ⟨found, hfound, rfl⟩ := Option.map_eq_some_iff.mp h'
  rw [exploreActions, List.mapM_cons, h, hfound]
  rfl

structure FindsFrom (P : Parser τ ν κ ε δ) (tokens : Array τ) (s : δ) (depth : Nat) (p : Path ν κ) (k : Nat)
    (es : List (Ending ν ε)) : Prop where
  all : k = 0 → P.explore tokens s (depth + 1) p = some es
  rest : ∀ token actions, P.cell tokens p = some (token, actions) → actions ≠ [] →
    P.exploreActions tokens s depth p token (actions.drop k) = some es

lemma FindsFrom.of_rest {k : Nat} (hc : P.cell tokens p = some (token, actions)) (hne : actions ≠ [])
    (h : P.exploreActions tokens s depth p token (actions.drop k) = some es) :
    P.FindsFrom tokens s depth p k es := by
  refine ⟨?_, fun token' actions' hc' _ => ?_⟩
  · rintro rfl
    rwa [explore_of_actions hc hne]
  · obtain ⟨rfl, rfl⟩ := Prod.mk.inj (Option.some.inj (hc.symm.trans hc'))
    exact h

section Pure

variable (hP : P.builder.Pure)

include hP

lemma shiftMove_pure (s s' : δ) (p : Path ν κ) (token : τ) (target : Nat) :
    (P.shiftMove tokens s p token target).2 = (P.shiftMove tokens s' p token target).2 := by
  rw [shiftMove, shiftMove]
  split
  · rfl
  · exact congrArg (p.shifted target) (hP.shift_eq s s' p.context token p.position)

lemma reduceMove_pure (s s' : δ) (p : Path ν κ) (index : Nat) :
    (P.reduceMove s p index).2 = (P.reduceMove s' p index).2 := by
  rw [reduceMove, reduceMove]
  split
  · rfl
  · rename_i production _
    dsimp only
    split
    · rfl
    · split
      · rfl
      · split
        · rfl
        · exact congrArg (p.reduced index _ _) (hP.reduce_eq s s' p.context production _)

lemma move_pure (s s' : δ) (p : Path ν κ) (token : τ) (action : Action) :
    (P.move tokens s p token action).2 = (P.move tokens s' p token action).2 := by
  cases action with
  | shift target => exact shiftMove_pure hP s s' p token target
  | reduce index => exact reduceMove_pure hP s s' p index
  | accept =>
    rw [move, move]
    split <;> rfl

lemma FindsFrom.step {store₁ : δ} {k : Nat} {others : List Action} {action : Action} {m : Move ν κ ε}
    (hc : P.cell tokens p = some (token, actions)) (hd : actions.drop k = action :: others)
    (hm : P.move tokens store p token action = (store₁, m)) (h : P.exploreMove tokens s depth p m = some es)
    (h' : P.FindsFrom tokens s depth p (k + 1) es') : P.FindsFrom tokens s depth p k (es ++ es') := by
  have hne := ne_nil_of_drop hd
  have hrest := h'.rest token actions hc hne
  rw [drop_succ_of_drop hd] at hrest
  refine .of_rest hc hne ?_
  rw [hd]
  refine exploreActions_cons ?_ hrest
  rwa [move_pure hP s store, hm]

lemma Explores.findsFrom {store' : δ} {k : Nat} (s : δ) (h : P.Explores tokens store p k store' es) :
    ∃ depth, ∀ n ≥ depth, P.FindsFrom tokens s n p k es := by
  induction h with
  | lost hc => exact ⟨0, fun n _ => ⟨fun _ => explore_of_lost hc, fun _ _ hc' => by simp [hc] at hc'⟩⟩
  | empty hc =>
    refine ⟨0, fun n _ => ⟨fun _ => explore_of_empty hc, fun token actions hc' hne => ?_⟩⟩
    rw [hc] at hc'
    exact absurd (Prod.mk.inj (Option.some.inj hc')).2.symm hne
  | exhausted hc hd hne => exact ⟨0, fun n _ => .of_rest hc hne (by rw [hd]; rfl)⟩
  | next hc hd hm _ _ ihq ihp =>
    obtain ⟨depth, hq⟩ := ihq
    obtain ⟨depth', hp⟩ := ihp
    refine ⟨max (depth + 1) depth', fun n hn => ?_⟩
    -- The path behind the action is explored with a depth that is less by one.
    obtain ⟨m, rfl⟩ : ∃ m, n = m + 1 := ⟨n - 1, by omega⟩
    exact (hp (m + 1) (by omega)).step hP hc hd hm ((hq m (by omega)).all rfl)
  | accepted hc hd hm _ ih =>
    obtain ⟨depth, hp⟩ := ih
    exact ⟨depth, fun n hn => (hp n hn).step hP hc hd hm rfl⟩
  | rejected hc hd hm _ ih =>
    obtain ⟨depth, hp⟩ := ih
    exact ⟨depth, fun n hn => (hp n hn).step hP hc hd hm rfl⟩

lemma Explores.yields {store' : δ} (s : δ) (h : P.Explores tokens store p 0 store' es) :
    P.Yields tokens s p es := by
  obtain ⟨depth, hp⟩ := h.findsFrom hP s
  refine ⟨depth + 1, fun n hn => ?_⟩
  obtain ⟨m, rfl⟩ : ∃ m, n = m + 1 := ⟨n - 1, by omega⟩
  exact (hp m (by omega)).all rfl

end Pure

/-- The error is that of the last among the farthest rejections. -/
def LastFarthest (rs : List (Nat × ε)) (e : ε) : Prop :=
  ∃ earlier position later, rs = earlier ++ (position, e) :: later ∧
    (∀ r ∈ earlier, r.1 ≤ position) ∧ ∀ r ∈ later, r.1 < position

lemma foldl_farther_concat (rs : List (Nat × ε)) (r : Nat × ε) :
    (rs ++ [r]).foldl farther none = farther (rs.foldl farther none) r := by
  rw [List.foldl_append]
  rfl

lemma foldl_farther_eq_none {rs : List (Nat × ε)} (h : rs.foldl farther none = none) : rs = [] := by
  cases rs using List.reverseRec with
  | nil => rfl
  | append_singleton rs r _ =>
    rw [foldl_farther_concat, farther] at h
    split at h
    · cases h
    · rename_i hall
      simp [h] at hall

lemma foldl_farther_eq_some {rs : List (Nat × ε)} {position : Nat} {e : ε}
    (h : rs.foldl farther none = some (position, e)) :
    ∃ earlier later, rs = earlier ++ (position, e) :: later ∧
      (∀ r ∈ earlier, r.1 ≤ position) ∧ ∀ r ∈ later, r.1 < position := by
  induction rs using List.reverseRecOn generalizing position e with
  | nil => cases h
  | append_singleton rs r ih =>
    rw [foldl_farther_concat, farther] at h
    split at h
    · rename_i hall
      obtain rfl := Option.some.inj h
      refine ⟨rs, [], rfl, fun r hr => ?_, by simp⟩
      cases hf : rs.foldl farther none with
      | none =>
        rw [foldl_farther_eq_none hf] at hr
        cases hr
      | some d =>
        obtain ⟨earlier, later, rfl, he, hl⟩ := ih hf
        have hd : d.1 ≤ position := by simpa [hf] using hall
        rcases List.mem_append.mp hr with hr | hr
        · exact Nat.le_trans (he r hr) hd
        · rcases List.mem_cons.mp hr with rfl | hr
          · exact hd
          · exact Nat.le_trans (Nat.le_of_lt (hl r hr)) hd
    · rename_i hall
      obtain ⟨earlier, later, rfl, he, hl⟩ := ih h
      refine ⟨earlier, later ++ [r], by simp, he, fun q hq => ?_⟩
      rcases List.mem_append.mp hq with hq | hq
      · exact hl q hq
      · rw [List.mem_singleton.mp hq]
        simpa [h] using hall

section Errors

variable {Q : ε → Prop} (hunread : ∀ token i, Q (P.builder.syntaxError token i))
  (hshift : ∀ s c token i s' e, P.builder.shift s c token i = (s', .error e) → Q e)
  (hreduce : ∀ s c p children s' e, P.builder.reduce s c p children = (s', .error (.reject e)) → Q e)

include hunread hshift hreduce

lemma move_error {store' : δ} {action : Action} {e : ε}
    (h : P.move tokens store p token action = (store', .rejected (some e))) : Q e := by
  cases action with
  | shift target =>
    rw [move, shiftMove] at h
    split at h
    · obtain rfl := Option.some.inj (Move.rejected.inj (congrArg Prod.snd h))
      exact hunread _ _
    · rcases hb : P.builder.shift store p.context token p.position with ⟨store₁, e | made⟩
      · rw [hb] at h
        obtain rfl := Option.some.inj (Move.rejected.inj (congrArg Prod.snd h))
        exact hshift _ _ _ _ _ _ hb
      · rw [hb] at h
        cases congrArg Prod.snd h
  | reduce index =>
    rcases reduce_cases h with hnone | ⟨_, _, _, _, _, ⟨_, hstop⟩ | ⟨_, (e | _) | made, _, hb, hmade⟩⟩
    · cases hnone
    · cases hstop
    · obtain rfl := Option.some.inj (Move.rejected.inj hmade)
      exact hreduce _ _ _ _ _ _ hb
    · cases hmade
    · cases hmade
  | accept =>
    rw [move] at h
    split at h <;> cases congrArg Prod.snd h

lemma noParse_error {before : Stats} {e : ε} (h : (P.parse before store tokens).result = .error (.noParse e)) :
    Q e := by
  obtain ⟨store', es, hes, _, ⟨position, hfarthest⟩ | ⟨_, token, _, rfl⟩⟩ := parse_noParse h
  · obtain ⟨earlier, later, hsplit, _, _⟩ := foldl_farther_eq_some hfarthest
    have hmem : (position, e) ∈ rejections es := hsplit ▸ List.mem_append_right _ List.mem_cons_self
    obtain ⟨_ | ⟨place, reason⟩, hending, herror⟩ := List.mem_filterMap.mp hmem
    · cases herror
    · obtain ⟨_, rfl, hpair⟩ := Option.map_eq_some_iff.mp herror
      obtain ⟨rfl, rfl⟩ := Prod.mk.inj hpair
      obtain ⟨q, _, _, hrejects⟩ :=
        hes.rejected_invariant (I := fun _ => True) (fun _ _ _ _ => trivial) trivial _ _ hending
      cases hrejects with
      | empty => exact hunread _ _
      | refused _ _ hm => exact move_error hunread hshift hreduce hm
  · exact hunread _ _

end Errors

theorem parse_yields (hP : P.builder.Pure) (before : Stats) (store : δ) :
    (∀ found, (P.parse before store tokens).result = .ok found → found ≠ [] ∧
      ∃ es, P.Yields tokens store ⟨0, [0], [], P.builder.initial⟩ es ∧ accepted es = found) ∧
    ∀ e, (P.parse before store tokens).result = .error (.noParse e) →
      ∃ es, P.Yields tokens store ⟨0, [0], [], P.builder.initial⟩ es ∧ accepted es = [] ∧
        (LastFarthest (rejections es) e ∨ rejections es = [] ∧
          ∃ token, tokens.back? = some token ∧ e = P.builder.syntaxError token (tokens.size - 1)) := by
  constructor
  · intro found h
    obtain ⟨hsome, es, he, hf⟩ := parse_ok h
    exact ⟨hsome, es, he.yields hP store, hf⟩
  · intro e h
    obtain ⟨store', es, he, hnil, hcase⟩ := parse_noParse h
    refine ⟨es, he.yields hP store, hnil, ?_⟩
    rcases hcase with ⟨position, hp⟩ | ⟨hn, token, ht, hsyntax⟩
    · obtain ⟨earlier, later, hrest⟩ := foldl_farther_eq_some hp
      exact Or.inl ⟨earlier, position, later, hrest⟩
    · exact Or.inr ⟨foldl_farther_eq_none hn, token, Array.back?_eq_getElem? ▸ ht, hsyntax⟩

theorem parse_yields_two_shifts :
    let T : Table :=
      { version := 1, terminals := #["a", "b"], nonterminals := #["S"], productions := #[], endMark := 1,
        actions := #[#[(0, [.shift 1, .shift 1])], #[(1, [.accept])]], gotos := #[#[], #[]] }
    let B : Builder Nat Nat Unit Unit Unit :=
      ⟨some, (), fun s c token _ => (s, .ok (c, token)), fun s _ _ _ => (s, .error .undefined), fun _ _ => ()⟩
    let P : Parser Nat Nat Unit Unit Unit := ⟨T, B, ⟨9, 9⟩, false⟩
    ∃ es, P.Yields #[0, 1] () ⟨0, [0], [], ()⟩ es ∧ accepted es = [0, 0] := by
  intro T B P
  have hP : P.builder.Pure := ⟨fun _ _ _ _ _ => rfl, fun _ _ _ _ _ => rfl⟩
  have hr : (P.parse {} () #[0, 1]).result = .ok [0, 0] := by decide +kernel
  exact ((parse_yields hP {} ()).1 _ hr).2

end Parser

end Search

end Ramify
