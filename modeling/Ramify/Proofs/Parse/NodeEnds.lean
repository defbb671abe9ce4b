import Ramify.Proofs.LR.ShiftPreference
import Ramify.Proofs.Parse.Tree
import Ramify.Proofs.Search.Explore

namespace Ramify

namespace ParseTree

variable {τ : Type}

mutual

def ends : Nat → ParseTree τ → List (Production × Nat)
  | _, leaf _ => []
  | start, node p children => (p, start + (forestLeaves children).length) :: forestEnds start children

def forestEnds : Nat → List (ParseTree τ) → List (Production × Nat)
  | _, [] => []
  | start, t :: ts => ends start t ++ forestEnds (start + (leaves t).length) ts

end

lemma forestEnds_append (start : Nat) (ts us : List (ParseTree τ)) : forestEnds start (ts ++ us) =
    forestEnds start ts ++ forestEnds (start + (forestLeaves ts).length) us := by
  induction ts generalizing start with
  | nil => rfl
  | cons t ts ih =>
    rw [List.cons_append, forestEnds, ih, forestEnds, forestLeaves, List.length_append, List.append_assoc,
      Nat.add_assoc]

lemma forestEnds_singleton (start : Nat) (t : ParseTree τ) : forestEnds start [t] = ends start t := by
  rw [forestEnds, forestEnds, List.append_nil]

end ParseTree

namespace Search.Parser

open LR

section Positions

variable {τ ν κ ε δ : Type} {P : Parser τ ν κ ε δ} {tokens : Array τ} {p : Path ν κ} {token : τ}
  {actions : List Action} {index t state : Nat}

lemma cell_inv (hlt : p.position < tokens.size) (hc : P.cell tokens p = some (token, actions)) :
    tokens[p.position]? = some token ∧ ∃ state, actions = P.options state token := by
  rw [cell, Nat.min_eq_left (by omega)] at hc
  split at hc
  · rename_i state _ token' _ htok
    obtain ⟨rfl, rfl⟩ := Prod.mk.inj (Option.some.inj hc)
    exact ⟨htok, state, rfl⟩
  · cases hc

lemma size_pos_of_cell (hc : P.cell tokens p = some (token, actions)) : 0 < tokens.size := by
  rw [cell] at hc
  split at hc
  · rename_i htok
    exact Nat.zero_lt_of_lt (Array.getElem?_eq_some_iff.mp htok).1
  · cases hc

lemma terminal_ne_of_reduce (h : ∀ s, .reduce index ∉ P.table.actionsAt s t)
    (ha : .reduce index ∈ P.options state token) : P.builder.terminal token ≠ some t := by
  intro ht
  rw [options, ht] at ha
  exact h state ha

lemma Reaches.position_lt {store : δ} {S : State ν κ ε δ} (hsize : 0 < tokens.size)
    (hS : P.Reaches tokens (P.start store) S) : S.path.position < tokens.size := by
  refine hS.invariant (I := fun p => p.position < tokens.size) (fun p q hp hm => ?_) (fun p hp => ?_) S.path
    List.mem_cons_self
  · rcases hm.position_cases with he | ⟨_, hlt⟩
    · exact he ▸ hp
    · exact hlt
  · obtain rfl := List.mem_singleton.mp hp
    exact hsize

end Positions

section Trees

variable {τ κ ε δ : Type} {P : Parser τ (ParseTree τ) κ ε δ} {tokens : Array τ} {p q : Path (ParseTree τ) κ}
  {token : τ} {actions : List Action} {store store' : δ}

variable (P tokens) in
def ReducesBefore (production : Production) (position : Nat) : Prop :=
  ∃ token state index, tokens[position]? = some token ∧ P.table.productions[index]? = some production ∧
    Action.reduce index ∈ P.options state token

variable (P tokens) in
structure Covers (p : Path (ParseTree τ) κ) : Prop where
  position_lt : p.position < tokens.size
  leaves_eq : ParseTree.forestLeaves p.values.reverse = tokens.toList.take p.position
  reduced : ∀ e ∈ ParseTree.forestEnds 0 p.values.reverse, P.ReducesBefore tokens e.1 e.2

lemma leaves_shift (hB : P.builder.BuildsTrees) {target : Nat} (htok : tokens[p.position]? = some token)
    (hleaves : ParseTree.forestLeaves p.values.reverse = tokens.toList.take p.position)
    (hm : P.move tokens store p token (.shift target) = (store', .next q)) :
    ParseTree.forestLeaves q.values.reverse = tokens.toList.take q.position := by
  obtain ⟨_, context, value, hb, rfl⟩ := shift_next hm
  obtain rfl := hB.shift_eq hb
  rw [List.reverse_cons, ParseTree.forestLeaves_append, hleaves, ParseTree.forestLeaves_singleton,
    ParseTree.leaves, List.take_add_one, Array.getElem?_toList, htok]
  rfl

lemma leaves_reduce (hB : P.builder.BuildsTrees) {index : Nat}
    (hm : P.move tokens store p token (.reduce index) = (store', .next q)) :
    ParseTree.forestLeaves q.values.reverse = ParseTree.forestLeaves p.values.reverse ∧
      q.position = p.position := by
  obtain ⟨production, _, _, context, value, _, _, _, _, hb, rfl⟩ := reduce_next hm
  obtain rfl := hB.reduce_eq hb
  rw [reverse_split production.rhs.length p.values, ParseTree.forestLeaves_append, List.reverse_cons,
    ParseTree.forestLeaves_append, ParseTree.forestLeaves_singleton, ParseTree.leaves]
  exact ⟨rfl, rfl⟩

lemma Covers.shift (hB : P.builder.BuildsTrees) (hp : P.Covers tokens p) {target : Nat}
    (hc : P.cell tokens p = some (token, actions))
    (hm : P.move tokens store p token (.shift target) = (store', .next q)) : P.Covers tokens q := by
  obtain ⟨htok, _⟩ := cell_inv hp.position_lt hc
  have hleaves := leaves_shift hB htok hp.leaves_eq hm
  obtain ⟨hlast, context, value, hb, rfl⟩ := shift_next hm
  obtain rfl := hB.shift_eq hb
  refine ⟨by dsimp only; omega, hleaves, fun e he => hp.reduced e ?_⟩
  rwa [List.reverse_cons, ParseTree.forestEnds_append, ParseTree.forestEnds_singleton, ParseTree.ends,
    List.append_nil] at he

lemma Covers.reduce (hB : P.builder.BuildsTrees) (hp : P.Covers tokens p) {index : Nat}
    (hc : P.cell tokens p = some (token, actions)) (ha : Action.reduce index ∈ actions)
    (hm : P.move tokens store p token (.reduce index) = (store', .next q)) : P.Covers tokens q := by
  obtain ⟨htok, state, rfl⟩ := cell_inv hp.position_lt hc
  obtain ⟨hkeep, _⟩ := leaves_reduce hB hm
  obtain ⟨production, _, _, context, value, hprod, _, _, _, hb, rfl⟩ := reduce_next hm
  obtain rfl := hB.reduce_eq hb
  have hleaves := hp.leaves_eq
  have hends := hp.reduced
  rw [reverse_split production.rhs.length p.values, ParseTree.forestEnds_append] at hends
  refine ⟨hp.position_lt, hkeep.trans hleaves, fun e he => ?_⟩
  · rw [List.reverse_cons, ParseTree.forestEnds_append, ParseTree.forestEnds_singleton, ParseTree.ends,
      List.mem_append, List.mem_cons] at he
    rcases he with he | rfl | he
    · exact hends e (List.mem_append_left _ he)
    · -- The new node ends where the path stands.
      rw [reverse_split production.rhs.length p.values, ParseTree.forestLeaves_append] at hleaves
      have hlen := congrArg List.length hleaves
      rw [List.length_append, List.length_take_of_le (by simpa using hp.position_lt.le)] at hlen
      exact ⟨token, state, index, by dsimp only; rwa [Nat.zero_add, hlen], hprod, ha⟩
    · exact hends e (List.mem_append_right _ he)

lemma Covers.movesTo (hB : P.builder.BuildsTrees) (hp : P.Covers tokens p) (hm : P.MovesTo tokens p q) :
    P.Covers tokens q := by
  obtain ⟨token, actions, action, store, store', hc, ha, hm⟩ := hm
  cases action with
  | shift target => exact hp.shift hB hc hm
  | reduce index => exact hp.reduce hB hc ha hm
  | accept => exact absurd hm accept_ne_next

lemma accepted_reduced (hB : P.builder.BuildsTrees) (hsize : 0 < tokens.size) {es : List (Ending (ParseTree τ) ε)}
    (he : P.Explores tokens store (P.start store).path 0 store' es) :
    ∀ tree ∈ accepted es, ∃ before after, tokens.toList = before ++ tree.leaves ++ after ∧
      ∀ e ∈ tree.ends before.length, P.ReducesBefore tokens e.1 e.2 := by
  refine he.accepted_invariant (fun p q hp hm => Covers.movesTo hB hp hm) ?_ ⟨hsize, rfl, nofun⟩
  intro p token actions tree values hp _ _ hvalues
  have hleaves := hp.leaves_eq
  have hends := hp.reduced
  rw [hvalues, List.reverse_cons, ParseTree.forestLeaves_append, ParseTree.forestLeaves_singleton] at hleaves
  rw [hvalues, List.reverse_cons, ParseTree.forestEnds_append, ParseTree.forestEnds_singleton, Nat.zero_add] at hends
  refine ⟨_, tokens.toList.drop p.position, ?_, fun e he => hends e (List.mem_append_right _ he)⟩
  rw [hleaves, List.take_append_drop]

end Trees

variable {τ ν κ ε δ : Type}

lemma preferred_not_followed {text : String} {options : Options} {K : Construction}
    (hK : construct text options = .ok K) {p q t : Nat} {short long : Production} {rest : List Symbol}
    {name : String} (hp : K.grammar.productions[p]? = some short) (hq : K.grammar.productions[q]? = some long)
    (hleft : long.lhs = short.lhs) (hright : long.rhs = short.rhs ++ .term t :: rest)
    (ht : K.grammar.terminals[t]? = some name) (hname : name ∈ options.preferShift) :
    (∀ s, .reduce p ∉ K.table.actionsAt s t) ∧
    (∀ (P : Parser τ ν κ ε δ) (tokens : Array τ) (store : δ) S token, P.table = K.table →
      P.Reaches tokens (P.start store) S → P.Chooses tokens S token (.reduce p) →
      tokens[S.path.position]? = some token ∧ P.builder.terminal token ≠ some t) ∧
    ∀ (P : Parser τ (ParseTree τ) κ ε δ) (tokens : Array τ) (before : Stats) (store : δ) found,
      P.table = K.table → P.builder.BuildsTrees → (P.parse before store tokens).result = .ok found →
      ∀ tree ∈ found, ∃ front back, tokens.toList = front ++ tree.leaves ++ back ∧
        ∀ stop, (short, stop) ∈ tree.ends front.length →
          ∃ token, tokens[stop]? = some token ∧ P.builder.terminal token ≠ some t := by
  obtain ⟨rules, hrules⟩ := construct_rules hK
  obtain ⟨g, hg, rfl⟩ := construct_ok hK
  have hcell := Construction.reduce_notMem_actionsAt hg (Grammar.ofRules_terminals_nodup hrules) hp hq hleft hright
    ht hname
  refine ⟨hcell, fun P tokens store S token hT hS hc => ?_,
    fun P tokens before store found hT hB hf tree htree => ?_⟩
  · obtain ⟨actions, hc, ha⟩ := hc
    obtain ⟨htok, state, rfl⟩ := cell_inv (hS.position_lt (size_pos_of_cell hc)) hc
    exact ⟨htok, terminal_ne_of_reduce (hT ▸ hcell) (List.mem_of_getElem? ha)⟩
  · obtain ⟨_, es, hes, rfl⟩ := parse_ok hf
    have hsize : 0 < tokens.size := by
      refine Array.size_pos_iff.mpr fun hempty => ?_
      rw [hempty] at hf
      cases hf
    obtain ⟨front, back, htokens, hends⟩ := accepted_reduced hB hsize hes tree htree
    refine ⟨front, back, htokens, fun stop hstop => ?_⟩
    obtain ⟨token, state, index, htok, hprod, ha⟩ := hends _ hstop
    rw [hT] at hprod
    obtain rfl : index = p := (hg.index_eq index short hprod).symm.trans (hg.index_eq p short hp)
    exact ⟨token, htok, terminal_ne_of_reduce (hT ▸ hcell) ha⟩

end Search.Parser

end Ramify
