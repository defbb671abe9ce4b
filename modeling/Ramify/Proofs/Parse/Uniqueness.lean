import Ramify.Proofs.Parse.Completeness

namespace Ramify

inductive Deed where
  | shift
  | reduce (index : Nat)
  | accept
deriving DecidableEq

def Action.deed : Action → Deed
  | .shift _ => .shift
  | .reduce index => .reduce index
  | .accept => .accept

namespace ParseTree

variable {τ : Type}

mutual

def deeds : ParseTree τ → List Deed
  | leaf _ => [.shift]
  | node p children => forestDeeds children ++ [.reduce p.index]

def forestDeeds : List (ParseTree τ) → List Deed
  | [] => []
  | t :: ts => deeds t ++ forestDeeds ts

end

lemma forestDeeds_append (ts us : List (ParseTree τ)) :
    forestDeeds (ts ++ us) = forestDeeds ts ++ forestDeeds us := by
  induction ts with
  | nil => rfl
  | cons t ts ih => rw [List.cons_append, forestDeeds, ih, forestDeeds, List.append_assoc]

lemma forestDeeds_singleton (t : ParseTree τ) : forestDeeds [t] = deeds t := by
  rw [forestDeeds, forestDeeds, List.append_nil]

end ParseTree

namespace Search

open LR

variable {τ κ ε δ : Type}

def Path.deeds (p : Path (ParseTree τ) κ) : List Deed := ParseTree.forestDeeds p.values.reverse

namespace Parser

variable {P : Parser τ (ParseTree τ) κ ε δ} {tokens : Array τ} {prefers : List String} {g : Grammar}
  {p q : Path (ParseTree τ) κ} {symbols : List Symbol} {token : τ} {actions : List Action} {action : Action}

lemma deeds_shift (h : P.Parses tokens prefers g) {store store' : δ} {target : Nat}
    (hm : P.move tokens store p token (.shift target) = (store', .next q)) : q.deeds = p.deeds ++ [.shift] := by
  obtain ⟨_, context, value, hb, rfl⟩ := shift_next hm
  obtain rfl := h.trees.shift_eq hb
  rw [Path.deeds, List.reverse_cons, ParseTree.forestDeeds_append, ParseTree.forestDeeds_singleton,
    ParseTree.deeds]
  rfl

lemma deeds_reduce (h : P.Parses tokens prefers g) {store store' : δ} {index : Nat}
    (hm : P.move tokens store p token (.reduce index) = (store', .next q)) :
    q.deeds = p.deeds ++ [.reduce index] := by
  obtain ⟨production, _, _, _, value, hprod, _, _, _, hb, rfl⟩ := reduce_next hm
  obtain rfl := h.trees.reduce_eq hb
  rw [h.productions_eq] at hprod
  rw [Path.deeds, List.reverse_cons, ParseTree.forestDeeds_append, ParseTree.forestDeeds_singleton,
    ParseTree.deeds, h.numbered.index_eq index production hprod, ← List.append_assoc,
    ← ParseTree.forestDeeds_append, ← reverse_split]
  rfl

lemma deeds_next (h : P.Parses tokens prefers g) {store store' : δ}
    (hm : P.move tokens store p token action = (store', .next q)) : q.deeds = p.deeds ++ [action.deed] := by
  cases action with
  | shift target => exact deeds_shift h hm
  | reduce index => exact deeds_reduce h hm
  | accept => exact absurd hm accept_ne_next

lemma allActions_deeds_nodup (hw : (NumberedGrammar.ofGrammar g).WellFormed) (s t : Nat) :
    ((Construction.allActions g s t).map Action.deed).Nodup := by
  refine (Construction.allActions_nodup hw).map_on fun a ha b hb hab => ?_
  cases a with
  | shift u =>
    cases b with
    | shift v =>
      have hu := Construction.shift_mem_allActions.mp ha
      have hv := Construction.shift_mem_allActions.mp hb
      exact congrArg Action.shift (Option.some.inj (hu.symm.trans hv))
    | reduce j => cases hab
    | accept => cases hab
  | reduce i =>
    cases b with
    | shift v => cases hab
    | reduce j => exact congrArg Action.reduce (Deed.reduce.inj hab)
    | accept => cases hab
  | accept =>
    cases b with
    | shift v => cases hab
    | reduce j => cases hab
    | accept => rfl

lemma Reads.deeds_nodup (h : P.Parses tokens prefers g) (hp : P.Reads tokens g p symbols)
    (hc : P.cell tokens p = some (token, actions)) : (actions.map Action.deed).Nodup := by
  have hw := NumberedGrammar.ofGrammar_wellFormed h.numbered
  obtain ⟨s, states, hs⟩ := hp.states_eq
  obtain ⟨_, rfl⟩ := cell_eq_some hs hc
  rcases h.options_sublist ((hs ▸ hp.stack).lt_size hw) token with hnil | ⟨t, _, hsub⟩
  · rw [hnil]
    exact List.nodup_nil
  · exact (allActions_deeds_nodup hw s t).sublist (hsub.map _)

variable (P tokens) in
/-- The actions that build a tree begin with those behind a path and one of its actions from `k`
on. -/
def Continues (p : Path (ParseTree τ) κ) (k : Nat) (tree : ParseTree τ) : Prop :=
  ∃ token actions, P.cell tokens p = some (token, actions) ∧ ∃ action ∈ actions.drop k,
    p.deeds ++ [action.deed] <+: tree.deeds ++ [.accept]

variable {store store' : δ} {k : Nat} {es : List (Ending (ParseTree τ) ε)} {tree : ParseTree τ}

lemma Continues.of_succ (h : P.Continues tokens p (k + 1) tree) : P.Continues tokens p k tree := by
  obtain ⟨token, actions, hc, action, ha, hpre⟩ := h
  rw [← List.drop_drop] at ha
  exact ⟨token, actions, hc, action, List.mem_of_mem_drop ha, hpre⟩

lemma deeds_accepted (h : P.Parses tokens prefers g) (hp : ∃ symbols, P.Reads tokens g p symbols)
    (hc : P.cell tokens p = some (token, actions)) (ha : action ∈ actions)
    (hm : P.move tokens store p token action = (store', .accepted tree)) :
    p.deeds ++ [action.deed] = tree.deeds ++ [.accept] := by
  obtain ⟨rfl, values, hvalues⟩ := accept_accepted hm
  obtain ⟨symbols, hp⟩ := hp
  obtain ⟨tree', htree', _⟩ := hp.accept h hc ha
  rw [htree'] at hvalues
  obtain ⟨rfl, _⟩ := List.cons.inj hvalues
  rw [Path.deeds, htree', List.reverse_singleton, ParseTree.forestDeeds_singleton]
  rfl

lemma Parses.continues (h : P.Parses tokens prefers g) (he : P.Explores tokens store p k store' es)
    (hp : ∃ symbols, P.Reads tokens g p symbols) (ht : tree ∈ Search.accepted es) :
    P.Continues tokens p k tree := by
  induction he with
  | lost => cases ht
  | empty => cases ht
  | exhausted => cases ht
  | next hc hd hm _ _ ihq ihp =>
    have hmem := mem_of_drop hd
    rw [accepted_append, List.mem_append] at ht
    rcases ht with ht | ht
    · obtain ⟨_, _, _, _, _, hpre⟩ := ihq (Reads.movesTo h hp ⟨_, _, _, _, _, hc, hmem, hm⟩) ht
      rw [deeds_next h hm] at hpre
      exact ⟨_, _, hc, _, hd ▸ List.mem_cons_self, (List.prefix_append _ _).trans hpre⟩
    · exact (ihp hp ht).of_succ
  | accepted hc hd hm _ ih =>
    have hmem := mem_of_drop hd
    rw [accepted_accepted, List.mem_cons] at ht
    rcases ht with rfl | ht
    · exact ⟨_, _, hc, _, hd ▸ List.mem_cons_self, (deeds_accepted h hp hc hmem hm).subst List.prefix_rfl⟩
    · exact (ih hp ht).of_succ
  | rejected _ _ _ _ ih => exact (ih hp ht).of_succ

lemma Continues.ne_of_first (h : P.Parses tokens prefers g) (hp : ∃ symbols, P.Reads tokens g p symbols)
    {others : List Action} (hc : P.cell tokens p = some (token, actions))
    (hd : actions.drop k = action :: others)
    (hpre : p.deeds ++ [action.deed] <+: tree.deeds ++ [.accept]) : ¬P.Continues tokens p (k + 1) tree := by
  rintro ⟨_, _, hc', action', ha', hpre'⟩
  rw [hc] at hc'
  cases hc'
  rw [drop_succ_of_drop hd] at ha'
  obtain ⟨symbols, hp⟩ := hp
  have hnodup := (hp.deeds_nodup h hc).sublist ((List.drop_sublist k actions).map _)
  rw [hd, List.map_cons, List.nodup_cons] at hnodup
  -- Both are the beginning of the same list, of the same length.
  have heq : p.deeds ++ [action.deed] = p.deeds ++ [action'.deed] :=
    (List.prefix_of_prefix_length_le hpre hpre' (by simp)).eq_of_length (by simp)
  have hdeed := List.singleton_inj.mp (List.append_cancel_left heq)
  exact hnodup.1 (hdeed ▸ List.mem_map_of_mem ha')

lemma Parses.nodup (h : P.Parses tokens prefers g) (he : P.Explores tokens store p k store' es)
    (hp : ∃ symbols, P.Reads tokens g p symbols) : (Search.accepted es).Nodup := by
  induction he with
  | lost => exact List.nodup_nil
  | empty => exact List.nodup_nil
  | exhausted => exact List.nodup_nil
  | next hc hd hm hq hrest ihq ihp =>
    have hmem := mem_of_drop hd
    have hq' := Reads.movesTo h hp ⟨_, _, _, _, _, hc, hmem, hm⟩
    rw [accepted_append]
    refine List.nodup_append'.mpr ⟨ihq hq', ihp hp, fun tree ht ht' => ?_⟩
    obtain ⟨_, _, _, _, _, hpre⟩ := h.continues hq hq' ht
    rw [deeds_next h hm] at hpre
    exact Continues.ne_of_first h hp hc hd ((List.prefix_append _ _).trans hpre) (h.continues hrest hp ht')
  | accepted hc hd hm hrest ih =>
    have hmem := mem_of_drop hd
    rw [accepted_accepted]
    refine List.nodup_cons.mpr ⟨fun ht => ?_, ih hp⟩
    exact Continues.ne_of_first h hp hc hd ((deeds_accepted h hp hc hmem hm).subst List.prefix_rfl)
      (h.continues hrest hp ht)
  | rejected _ _ _ _ ih => exact ih hp

/-- A search finds each parse of the input once, if no conflict is resolved by shifting and the
builder takes every step; and nothing twice in any case. -/
theorem parse_complete {text : String} {options : Options} {K : Construction}
    (hK : construct text options = .ok K) (hstart : ∀ p ∈ K.grammar.productions, Symbol.nonterm 0 ∉ p.rhs)
    (hT : P.table = K.table) (hB : P.builder.BuildsTrees)
    (he : EndsOnce P.builder.terminal K.table.endMark tokens) (before : Stats) (store : δ) :
    ((∀ c ∈ K.conflicts, c.resolution ≠ .preferShift) → P.builder.NeverRejects →
      (∀ found, (P.parse before store tokens).result = .ok found →
        found.Nodup ∧ ∀ tree, tree ∈ found ↔ tree.IsParse P.builder.terminal K.grammar tokens) ∧
      ∀ e, (P.parse before store tokens).result = .error (.noParse e) →
        ∀ tree : ParseTree τ, ¬tree.IsParse P.builder.terminal K.grammar tokens) ∧
    ∀ found, (P.parse before store tokens).result = .ok found → found.Nodup := by
  obtain ⟨h, hconflicts⟩ := Parses.of_construct hK hstart hT hB he
  have hnodup : ∀ found, (P.parse before store tokens).result = .ok found → found.Nodup := by
    intro found hf
    obtain ⟨_, es, hes, rfl⟩ := parse_ok hf
    exact h.nodup hes ⟨[], reads_start h store⟩
  refine ⟨fun hkept htakes => ?_, hnodup⟩
  have hall : P.ParsesAll tokens options.preferShift K.grammar := ⟨h, htakes, by rwa [hconflicts]⟩
  refine ⟨fun found hf => ⟨hnodup found hf, fun tree => ?_⟩, fun e hf tree ht => ?_⟩
  · obtain ⟨_, es, hes, rfl⟩ := parse_ok hf
    exact ⟨h.accepted hes tree, hall.mem_accepted hes⟩
  · obtain ⟨store', es, hes, hnil, _⟩ := parse_noParse hf
    have hmem := hall.mem_accepted hes ht
    rw [hnil] at hmem
    cases hmem

theorem parse_complete_twofold : ∃ found, (twofoldParser.parse {} () #[0, 1]).result = .ok found ∧
    found.length = 2 ∧ found.Nodup ∧ ∀ tree, tree ∈ found ↔ tree.IsParse some twofold #[0, 1] := by
  have hh := parse_complete (P := twofoldParser) construct_twofold twofold_isolated rfl
    (Builder.buildsTrees_trees _ _) twofold_ends {} ()
  have hkept : ∀ c ∈ (Construction.ofGrammar [] twofold).conflicts, c.resolution ≠ .preferShift :=
    fun c hc hr => absurd (Construction.preferred_of_conflict hc hr) List.not_mem_nil
  obtain ⟨hfound, _⟩ := hh.1 hkept (Builder.neverRejects_trees _ _)
  exact ⟨_, parse_twofold, rfl, hfound _ parse_twofold⟩

end Parser

end Search

end Ramify
