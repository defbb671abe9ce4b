import Ramify.Proofs.LR.Cells
import Ramify.Proofs.LR.ViablePrefix
import Ramify.Proofs.Parse.Tree
import Ramify.Proofs.Search.Explore

namespace Ramify

structure Builder.Keeps {τ ν κ ε δ : Type} (B : Builder τ ν κ ε δ) (tokens : Array τ)
    (productions : Array Production) (Good : Symbol → ν → Prop) : Prop where
  shift : ∀ {s s' : δ} {c c' : κ} {token : τ} {i t : Nat} {v : ν}, B.shift s c token i = (s', .ok (c', v)) →
    tokens[i]? = some token → B.terminal token = some t → Good (.term t) v
  reduce : ∀ {s s' : δ} {c c' : κ} {p : Production} {index : Nat} {children : List ν} {v : ν},
    B.reduce s c p children = (s', .ok (c', v)) → productions[index]? = some p →
    List.Forall₂ Good p.rhs children → Good (.nonterm p.lhs) v

lemma Builder.keeps_any {τ ν κ ε δ : Type} (B : Builder τ ν κ ε δ) (tokens : Array τ)
    (productions : Array Production) : B.Keeps tokens productions fun _ _ => True :=
  ⟨fun _ _ _ => trivial, fun _ _ _ => trivial⟩

namespace Grammar

variable {g : Grammar}

lemma WellNumbered.start_isolated (h : g.WellNumbered) (hstart : ∀ p ∈ g.productions, Symbol.nonterm 0 ∉ p.rhs) :
    ∀ r ∈ (LR.NumberedGrammar.ofGrammar g).rules, 0 ∉ r.right := by
  intro r hr hmem
  obtain ⟨p, hp, rfl⟩ := Array.mem_map.mp hr
  obtain ⟨s, hs, h0⟩ := List.mem_map.mp hmem
  cases s with
  | nonterm i =>
    obtain rfl : i = 0 := h0
    exact hstart p hp hs
  | term t =>
    have hpos := h.lhs_lt p hp
    have hsum : g.nonterminals.size + t = 0 := h0
    omega

lemma WellNumbered.endSymbol_eq (h : g.WellNumbered) :
    (LR.NumberedGrammar.ofGrammar g).endSymbol = g.nonterminals.size + g.endTerminal := by
  have hpos := h.terminals_pos
  change g.nonterminals.size + g.terminals.size - 1 = g.nonterminals.size + (g.terminals.size - 1)
  omega

end Grammar

namespace Search.Parser

open LR

variable {τ ν κ ε δ : Type} {P : Parser τ ν κ ε δ} {tokens : Array τ} {prefers : List String} {g : Grammar}
  {Good : Symbol → ν → Prop} {p q : Path ν κ} {symbols : List Symbol} {token : τ} {actions : List Action}

structure Constructed (P : Parser τ ν κ ε δ) (prefers : List String) (g : Grammar) : Prop where
  table_eq : P.table = (Construction.ofGrammar prefers g).table
  numbered : g.WellNumbered

structure Stands (P : Parser τ ν κ ε δ) (tokens : Array τ) (g : Grammar) (Good : Symbol → ν → Prop)
    (p : Path ν κ) (symbols : List Symbol) : Prop where
  stack : (NumberedGrammar.ofGrammar g).Stack p.states (symbols.map g.number)
  inRange : ∀ s ∈ symbols, s.InRange g.nonterminals.size
  good : List.Forall₂ Good symbols p.values
  position_lt : p.position < tokens.size

lemma stands_start (h : 0 < tokens.size) (store : δ) : P.Stands tokens g Good (P.start store).path [] :=
  ⟨.bottom, nofun, .nil, h⟩

lemma cell_eq_some {s : Nat} {states : List Nat} (hs : p.states = s :: states)
    (hc : P.cell tokens p = some (token, actions)) :
    tokens[min p.position (tokens.size - 1)]? = some token ∧ actions = P.options s token := by
  rw [cell, hs] at hc
  cases ht : tokens[min p.position (tokens.size - 1)]? with
  | none =>
    rw [ht] at hc
    cases hc
  | some token' =>
    rw [ht] at hc
    obtain ⟨rfl, rfl⟩ := Prod.mk.inj (Option.some.inj hc)
    exact ⟨rfl, rfl⟩

lemma Constructed.options_sublist (h : P.Constructed prefers g) {s : Nat}
    (hs : s < (NumberedGrammar.ofGrammar g).collection.size) (token : τ) :
    P.options s token = [] ∨ ∃ t, P.builder.terminal token = some t ∧
      (P.options s token).Sublist (Construction.allActions g s t) := by
  rw [options]
  split
  · rename_i t ht
    rw [h.table_eq, Construction.table_actionsAt hs]
    split
    · exact Or.inr ⟨t, ht, Cell.ofActions_sublist⟩
    · exact Or.inl rfl
  · exact Or.inl rfl

lemma Constructed.productions_eq (h : P.Constructed prefers g) : P.table.productions = g.productions := by
  rw [h.table_eq]
  rfl

lemma Stands.states_eq (h : P.Stands tokens g Good p symbols) : ∃ s states, p.states = s :: states := by
  apply List.exists_cons_of_length_pos
  rw [h.stack.length_eq]
  omega

lemma Stands.mem_cell (h : P.Constructed prefers g) (hp : P.Stands tokens g Good p symbols)
    (hc : P.cell tokens p = some (token, actions)) {action : Action} (ha : action ∈ actions) :
    ∃ s states t, p.states = s :: states ∧ tokens[p.position]? = some token ∧
      P.builder.terminal token = some t ∧ action ∈ Construction.allActions g s t := by
  obtain ⟨s, states, hs⟩ := hp.states_eq
  have hw := NumberedGrammar.ofGrammar_wellFormed h.numbered
  have hlt := (hs ▸ hp.stack).lt_size hw
  obtain ⟨htok, rfl⟩ := cell_eq_some hs hc
  have hpos := hp.position_lt
  rw [Nat.min_eq_left (by omega)] at htok
  rcases h.options_sublist hlt token with hnil | ⟨t, ht, hsub⟩
  · rw [hnil] at ha
    cases ha
  · exact ⟨s, states, t, hs, htok, ht, hsub.subset ha⟩

section Step

variable {store store' : δ}

lemma Stands.shift (h : P.Constructed prefers g) (hB : P.builder.Keeps tokens g.productions Good)
    (hp : P.Stands tokens g Good p symbols) {target : Nat} (hc : P.cell tokens p = some (token, actions))
    (ha : Action.shift target ∈ actions)
    (hm : P.move tokens store p token (.shift target) = (store', .next q)) :
    ∃ t, P.builder.terminal token = some t ∧ P.Stands tokens g Good q (.term t :: symbols) := by
  obtain ⟨s, states, t, hs, htok, ht, hmem⟩ := hp.mem_cell h hc ha
  obtain ⟨hlast, context, value, hb, rfl⟩ := shift_next hm
  refine ⟨t, ht, ?_, ?_, .cons (hB.shift hb htok ht) hp.good, by dsimp only; omega⟩
  · have hstack := hp.stack
    dsimp only
    rw [hs] at hstack ⊢
    exact .push hstack (Construction.shift_mem_allActions.mp hmem)
  · exact List.forall_mem_cons.mpr ⟨nofun, hp.inRange⟩

lemma Stands.reduction (h : P.Constructed prefers g) (hp : P.Stands tokens g Good p symbols) {index : Nat}
    (hc : P.cell tokens p = some (token, actions)) (ha : Action.reduce index ∈ actions) :
    ∃ production exposed target, g.productions[index]? = some production ∧
      production.rhs.length ≤ symbols.length ∧ (symbols.take production.rhs.length).reverse = production.rhs ∧
      p.states[production.rhs.length]? = some exposed ∧
      (NumberedGrammar.ofGrammar g).collection.goto? exposed production.lhs = some target ∧
      P.table.goto? exposed production.lhs = some target := by
  have hw := NumberedGrammar.ofGrammar_wellFormed h.numbered
  obtain ⟨s, states, t, hs, _, _, hmem⟩ := hp.mem_cell h hc ha
  obtain ⟨hne, hl⟩ := (Construction.reduce_mem_allActions hw).mp hmem
  obtain ⟨hle, htake, exposed, rule, target, he, hrule, hg⟩ := (hs ▸ hp.stack).reduce hw hne hl
  obtain ⟨production, hprod, rfl⟩ := Grammar.exists_production hrule
  have hright : (NumberedGrammar.ofGrammar g).right index = production.rhs.map g.number :=
    NumberedGrammar.right_eq hrule
  rw [hright, List.length_map] at hle htake he
  rw [List.length_map] at hle
  have hmemp := Array.mem_of_getElem? hprod
  refine ⟨production, exposed, target, hprod, hle, ?_, hs ▸ he, hg, ?_⟩
  · rw [← List.map_take, ← List.map_reverse] at htake
    refine Grammar.map_number_inj (fun s hs => ?_) (h.numbered.rhs_inRange hmemp) htake
    exact hp.inRange s (List.mem_of_mem_take (List.mem_reverse.mp hs))
  · rw [h.table_eq, Construction.table_goto? hw, if_pos (h.numbered.lhs_lt _ hmemp)]
    exact hg

lemma Stands.reduce (h : P.Constructed prefers g) (hB : P.builder.Keeps tokens g.productions Good)
    (hp : P.Stands tokens g Good p symbols) {index : Nat} (hc : P.cell tokens p = some (token, actions))
    (ha : Action.reduce index ∈ actions)
    (hm : P.move tokens store p token (.reduce index) = (store', .next q)) :
    ∃ production ∈ g.productions, (symbols.take production.rhs.length).reverse = production.rhs ∧
      P.Stands tokens g Good q (.nonterm production.lhs :: symbols.drop production.rhs.length) := by
  obtain ⟨production, exposed, target, hprod, hle, hrhs, he, hg, hgoto⟩ := hp.reduction h hc ha
  obtain ⟨production', exposed', target', context, value, hprod', he', hv, hgoto', hb, rfl⟩ := reduce_next hm
  rw [h.productions_eq, hprod] at hprod'
  obtain rfl := Option.some.inj hprod'
  obtain rfl := Option.some.inj (he.symm.trans he')
  obtain rfl := Option.some.inj (hgoto.symm.trans hgoto')
  refine ⟨production, Array.mem_of_getElem? hprod, hrhs, ?_, ?_, .cons (hB.reduce hb hprod ?_)
    (List.forall₂_drop _ hp.good), hp.position_lt⟩
  · have hdrop := hp.stack.drop (n := production.rhs.length) (by rwa [List.length_map])
    obtain ⟨hlt, hget⟩ := List.getElem?_eq_some_iff.mp he
    dsimp only
    rw [List.drop_eq_getElem_cons hlt, hget] at hdrop ⊢
    rw [List.map_cons, List.map_drop]
    exact .push hdrop hg
  · refine List.forall_mem_cons.mpr ⟨fun i hi => ?_, fun s hs => hp.inRange s (List.mem_of_mem_drop hs)⟩
    exact Symbol.nonterm.inj hi ▸ h.numbered.lhs_lt _ (Array.mem_of_getElem? hprod)
  · have hchildren := List.forall₂_reverse_iff.mpr (List.forall₂_take production.rhs.length hp.good)
    rwa [hrhs] at hchildren

end Step

lemma Stands.movesTo (h : P.Constructed prefers g) (hB : P.builder.Keeps tokens g.productions Good)
    (hp : ∃ symbols, P.Stands tokens g Good p symbols) (hm : P.MovesTo tokens p q) :
    ∃ symbols, P.Stands tokens g Good q symbols := by
  obtain ⟨symbols, hp⟩ := hp
  obtain ⟨token, actions, action, store, store', hc, ha, hm⟩ := hm
  cases action with
  | shift target =>
    obtain ⟨t, _, hq⟩ := hp.shift h hB hc ha hm
    exact ⟨_, hq⟩
  | reduce index =>
    obtain ⟨production, _, _, hq⟩ := hp.reduce h hB hc ha hm
    exact ⟨_, hq⟩
  | accept => exact absurd hm accept_ne_next

lemma Stands.of_reaches (h : P.Constructed prefers g) (hB : P.builder.Keeps tokens g.productions Good)
    (hsize : 0 < tokens.size) {store : δ} {S : State ν κ ε δ} (hS : P.Reaches tokens (P.start store) S) :
    ∃ symbols, P.Stands tokens g Good S.path symbols := by
  refine hS.invariant (fun p q hp hm => Stands.movesTo h hB hp hm) (fun p hp => ?_) S.path List.mem_cons_self
  obtain rfl := List.mem_singleton.mp hp
  exact ⟨[], stands_start hsize store⟩

lemma Stands.accept_position (h : P.Constructed prefers g) (hp : P.Stands tokens g Good p symbols)
    (hc : P.cell tokens p = some (token, actions)) (ha : Action.accept ∈ actions) :
    tokens[p.position]? = some token ∧ P.builder.terminal token = some g.endTerminal := by
  have hw := NumberedGrammar.ofGrammar_wellFormed h.numbered
  obtain ⟨_, _, t, _, htok, ht, hmem⟩ := hp.mem_cell h hc ha
  have hend := ((Construction.accept_mem_allActions hw).mp hmem).1
  rw [h.numbered.endSymbol_eq] at hend
  exact ⟨htok, Nat.add_left_cancel hend ▸ ht⟩

lemma Stands.accept_symbols (h : P.Constructed prefers g)
    (hstart : ∀ p ∈ g.productions, Symbol.nonterm 0 ∉ p.rhs) (hp : P.Stands tokens g Good p symbols)
    (hc : P.cell tokens p = some (token, actions)) (ha : Action.accept ∈ actions) :
    ∃ first, g.productions[1]? = some first ∧ symbols = [.nonterm first.lhs] := by
  have hw := NumberedGrammar.ofGrammar_wellFormed h.numbered
  obtain ⟨s, states, t, hs, _, _, hmem⟩ := hp.mem_cell h hc ha
  have hl := ((Construction.accept_mem_allActions hw).mp hmem).2
  obtain ⟨start, first, hstart', hfirst, hlhs, hrhs, _⟩ := h.numbered.start
  have hrule := Grammar.rules_getElem? hstart'
  have hrev := (hs ▸ hp.stack).accept hw hrule (fun r hr => hlhs ▸ h.numbered.start_isolated hstart r hr) hl
  rw [NumberedGrammar.right_eq hrule, hrhs, ← List.map_reverse] at hrev
  have hin : ∀ s ∈ [Symbol.nonterm first.lhs], s.InRange g.nonterminals.size := by
    rintro s hs i rfl
    cases List.mem_singleton.mp hs
    exact h.numbered.lhs_lt _ (Array.mem_of_getElem? hfirst)
  have hinj := Grammar.map_number_inj (fun s hs => hp.inRange s (List.mem_reverse.mp hs)) hin hrev
  refine ⟨first, hfirst, ?_⟩
  rw [← List.reverse_reverse symbols, hinj]
  rfl

lemma Stands.accept (h : P.Constructed prefers g) (hstart : ∀ p ∈ g.productions, Symbol.nonterm 0 ∉ p.rhs)
    (hp : P.Stands tokens g Good p symbols) (hc : P.cell tokens p = some (token, actions))
    (ha : Action.accept ∈ actions) :
    ∃ first value, g.productions[1]? = some first ∧ symbols = [.nonterm first.lhs] ∧ p.values = [value] ∧
      Good (.nonterm first.lhs) value := by
  obtain ⟨first, hfirst, rfl⟩ := hp.accept_symbols h hstart hc ha
  obtain ⟨value, rest, hvalue, hrest, hvalues⟩ := List.forall₂_cons_left_iff.mp hp.good
  obtain rfl := List.forall₂_nil_left_iff.mp hrest
  exact ⟨first, value, hfirst, rfl, hvalues, hvalue⟩

end Search.Parser

end Ramify
