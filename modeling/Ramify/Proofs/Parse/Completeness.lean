import Ramify.Proofs.Parse.Runs
import Ramify.Proofs.Parse.Soundness

/-! Completeness of parsing. A search whose builder takes every step, with a table in which no
conflict is resolved, meets every action of the cells that it comes to; so it follows each
run over trees as far as its tokens are those of the run. It therefore accepts all parses. -/

namespace Ramify

structure Builder.Renders {τ τ' ν κ ε δ : Type} (B : Builder τ ν κ ε δ) (tokens : Array τ) (word : Array τ')
    (View : ν → ParseTree τ' → Prop) : Prop where
  shift : ∀ {s s' : δ} {c c' : κ} {token : τ} {token' : τ'} {i : Nat} {v : ν},
    B.shift s c token i = (s', .ok (c', v)) → tokens[i]? = some token → word[i]? = some token' →
    View v (.leaf token')
  reduce : ∀ {s s' : δ} {c c' : κ} {p : Production} {children : List ν} {children' : List (ParseTree τ')} {v : ν},
    B.reduce s c p children = (s', .ok (c', v)) → List.Forall₂ View children children' → View v (.node p children')

lemma Builder.BuildsTrees.renders {τ κ ε δ : Type} {B : Builder τ (ParseTree τ) κ ε δ} (h : B.BuildsTrees)
    (tokens : Array τ) : B.Renders tokens tokens Eq := by
  refine ⟨fun hb htok htok' => ?_, fun hb hchildren => ?_⟩
  · rw [h.shift_eq hb, Option.some.inj (htok.symm.trans htok')]
  · rw [List.forall₂_eq_eq_eq] at hchildren
    rw [h.reduce_eq hb, hchildren]

namespace Search

open LR

structure Path.Renders {τ ν κ : Type} (View : ν → ParseTree τ → Prop) (p : Path ν κ) (c : Run.Configuration τ) :
    Prop where
  position_eq : p.position = c.position
  states_eq : p.states = c.states
  values : List.Forall₂ View p.values c.values

namespace Parser

section TakesAll

variable {τ τ' ν κ ε δ : Type} {P : Parser τ ν κ ε δ} {tokens : Array τ} {word : Array τ'} {prefers : List String}
  {g : Grammar} {View : ν → ParseTree τ' → Prop} {terminal : τ' → Option Nat} {p : Path ν κ} {token : τ}
  {s t position : Nat} {states : List Nat} {store store' : δ} {es : List (Ending ν ε)} {action : Action}

/-- The builder takes every step, and no conflict is resolved. -/
structure TakesAll (P : Parser τ ν κ ε δ) (prefers : List String) (g : Grammar) : Prop
    extends P.Constructed prefers g where
  takes : P.builder.NeverRejects
  kept : ∀ c ∈ (Construction.ofGrammar prefers g).conflicts, c.resolution ≠ .preferShift

lemma TakesAll.cell_eq (h : P.TakesAll prefers g) (ha : action ∈ Construction.allActions g s t)
    (hp : p.states = s :: states) (htok : tokens[p.position]? = some token)
    (ht : P.builder.terminal token = some t) : P.cell tokens p = some (token, Construction.allActions g s t) := by
  have hpos := (Array.getElem?_eq_some_iff.mp htok).1
  obtain ⟨hs, hlt⟩ := Construction.bounds_of_mem_allActions (NumberedGrammar.ofGrammar_wellFormed h.numbered) ha
  have hlt' : t < (NumberedGrammar.ofGrammar g).terminals := by
    change t < g.nonterminals.size + g.terminals.size - g.nonterminals.size
    omega
  rw [cell, hp, Nat.min_eq_left (by omega), htok]
  dsimp only
  rw [options, ht]
  dsimp only
  rw [h.table_eq, Construction.table_actionsAt hs, if_pos hlt', Construction.cellAt_actions h.kept hs hlt']

lemma Explores.follow (h : P.TakesAll prefers g) (hB : P.builder.Renders tokens word View)
    (he : P.Explores tokens store p 0 store' es) {c c' : Run.Configuration τ'} (hp : p.Renders View c)
    (hstep : Run.Steps g terminal word c c') (hlast : c'.position < tokens.size)
    (hagree : ∀ token', word[c.position]? = some token' →
      ∃ token, tokens[c.position]? = some token ∧ P.builder.terminal token = terminal token') :
    ∃ q store₁ store₂ es', P.MovesTo tokens p q ∧ P.Explores tokens store₁ q 0 store₂ es' ∧ es' ⊆ es ∧
      q.Renders View c' := by
  have hw := NumberedGrammar.ofGrammar_wellFormed h.numbered
  obtain ⟨i, _, values, context⟩ := p
  obtain ⟨rfl, rfl, hvalues⟩ := hp
  cases hstep with
  | @shift i s t u states trees token' htok' ht' _ ha =>
    obtain ⟨token, htok, ht⟩ := hagree token' htok'
    have hc := h.cell_eq ha (p := ⟨i, s :: states, values, context⟩) rfl htok (ht.trans ht')
    obtain ⟨store₁, store₂, es', hb, hsub⟩ := he.alternative hc ha
    obtain ⟨store₃, context', value, hbuild⟩ := h.takes.shift_ok store₁ context token i
    have hm : P.move tokens store₁ ⟨i, s :: states, values, context⟩ token (.shift u) = _ :=
      move_shift (Nat.lt_sub_of_add_lt hlast) hbuild
    dsimp only at hb
    rw [hm] at hb
    cases hb with
    | next hq =>
      refine ⟨_, _, _, _, ⟨token, _, _, _, _, hc, ha, hm⟩, hq, hsub, rfl, rfl, ?_⟩
      exact .cons (hB.shift hbuild htok htok') hvalues
  | @reduce i s t u index exposed states trees token' production htok' ht' hprod ha hexposed hle hgoto =>
    obtain ⟨token, htok, ht⟩ := hagree token' htok'
    have hc := h.cell_eq ha (p := ⟨i, s :: states, values, context⟩) rfl htok (ht.trans ht')
    obtain ⟨store₁, store₂, es', hb, hsub⟩ := he.alternative hc ha
    obtain ⟨store₃, context', value, hbuild⟩ := h.takes.reduce_ok store₁ context production
      (values.take production.rhs.length).reverse
    have htable : P.table.goto? exposed production.lhs = some u := by
      rw [h.table_eq, Construction.table_goto? hw,
        if_pos (h.numbered.lhs_lt _ (Array.mem_of_getElem? hprod)), hgoto]
    have hm : P.move tokens store₁ ⟨i, s :: states, values, context⟩ token (.reduce index) = _ :=
      move_reduce (h.productions_eq.symm ▸ hprod) hexposed (hvalues.length_eq.symm ▸ hle) htable hbuild
    dsimp only at hb
    rw [hm] at hb
    cases hb with
    | next hq =>
      refine ⟨_, _, _, _, ⟨token, _, _, _, _, hc, ha, hm⟩, hq, hsub, rfl, rfl, ?_⟩
      refine .cons (hB.reduce hbuild ?_) (List.forall₂_drop _ hvalues)
      exact List.forall₂_reverse_iff.mpr (List.forall₂_take _ hvalues)

lemma Explores.follow_accept (h : P.TakesAll prefers g) (he : P.Explores tokens store p 0 store' es)
    {c : Run.Configuration τ'} {tree : ParseTree τ'} {trees : List (ParseTree τ')} (hp : p.Renders View c)
    (hs : c.states = s :: states) (hv : c.values = tree :: trees) (ha : .accept ∈ Construction.allActions g s t)
    (htok : tokens[c.position]? = some token) (ht : P.builder.terminal token = some t) :
    ∃ value, View value tree ∧ .accepted value ∈ es := by
  obtain ⟨hposition, hstates, hvalues⟩ := hp
  rw [hv] at hvalues
  obtain ⟨value, values, hvalue, _, hpv⟩ := List.forall₂_cons_right_iff.mp hvalues
  rw [← hposition] at htok
  obtain ⟨store₁, store₂, es', hb, hsub⟩ := he.alternative (h.cell_eq ha (hstates.trans hs) htok ht) ha
  rw [move_accept hpv] at hb
  cases hb with
  | accepted => exact ⟨value, hvalue, hsub List.mem_cons_self⟩

end TakesAll

variable {τ κ ε δ : Type} {P : Parser τ (ParseTree τ) κ ε δ} {tokens : Array τ} {prefers : List String}
  {g : Grammar}

structure ParsesAll (P : Parser τ (ParseTree τ) κ ε δ) (tokens : Array τ) (prefers : List String)
    (g : Grammar) : Prop extends P.Parses tokens prefers g where
  takes : P.builder.NeverRejects
  kept : ∀ c ∈ (Construction.ofGrammar prefers g).conflicts, c.resolution ≠ .preferShift

lemma ParsesAll.takesAll (h : P.ParsesAll tokens prefers g) : P.TakesAll prefers g :=
  ⟨h.toConstructed, h.takes, h.kept⟩

lemma Explores.follow_run (h : P.ParsesAll tokens prefers g) {store store' : δ} {es : List (Ending (ParseTree τ) ε)}
    (he : P.Explores tokens store (P.start store).path 0 store' es) {c : Run.Configuration τ}
    (hrun : Relation.ReflTransGen (Run.Steps g P.builder.terminal tokens) ⟨0, [0], []⟩ c) :
    ∃ q store₁ store₂ es', P.Explores tokens store₁ q 0 store₂ es' ∧ es' ⊆ es ∧ q.Renders Eq c := by
  induction hrun with
  | refl => exact ⟨_, _, _, _, he, List.Subset.refl _, rfl, rfl, .nil⟩
  | tail _ hstep ih =>
    obtain ⟨q, store₁, store₂, es', hq, hsub, hrenders⟩ := ih
    obtain ⟨q', store₃, store₄, es'', _, hq', hsub', hrenders'⟩ := hq.follow h.takesAll
      (h.trees.renders tokens) hrenders hstep hstep.position_lt fun token htok => ⟨token, htok, rfl⟩
    exact ⟨q', store₃, store₄, es'', hq', List.Subset.trans hsub' hsub, hrenders'⟩

lemma ParsesAll.mem_accepted (h : P.ParsesAll tokens prefers g) {store store' : δ}
    {es : List (Ending (ParseTree τ) ε)} (he : P.Explores tokens store (P.start store).path 0 store' es)
    {tree : ParseTree τ} (ht : tree.IsParse P.builder.terminal g tokens) : tree ∈ accepted es := by
  obtain ⟨first, hfirst, hderives, hleaves⟩ := ht
  obtain ⟨token, htoken, htokens⟩ := h.ends.toList_eq
  rw [← hleaves] at htokens
  obtain ⟨top, below, hrun, ha⟩ := Run.exists_run h.numbered h.isolated hfirst hderives htokens htoken
  obtain ⟨q, store₁, store₂, es', hq, hsub, hrenders⟩ := he.follow_run h hrun
  have htok : tokens[tree.leaves.length]? = some token := by
    rw [← Array.getElem?_toList, htokens, List.getElem?_concat_length]
  obtain ⟨value, rfl, hmem⟩ := hq.follow_accept h.takesAll hrenders rfl rfl ha htok htoken
  exact List.mem_filterMap.mpr ⟨_, hsub hmem, rfl⟩

end Parser

end Search

end Ramify
