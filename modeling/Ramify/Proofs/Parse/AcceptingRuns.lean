import Ramify.Proofs.Parse.Rehearsals

namespace Ramify

namespace Search.Parser

open LR

variable {τ ν κ ε δ : Type} {P : Parser τ ν κ ε δ} {tokens : Array τ} {prefers : List String} {g : Grammar}

lemma exists_rehearsal {B : Builder τ ν κ ε δ} (takes : B.NeverRejects) (hg : g.WellNumbered) (store : δ)
    {c : Run.Configuration τ} (hrun : Relation.ReflTransGen (Run.Steps g B.terminal tokens) ⟨0, [0], []⟩ c) :
    ∃ l, B.rehearse g.productions tokens store c.deeds = some l ∧ l.position = c.position := by
  induction hrun with
  | refl => exact ⟨_, rfl, rfl⟩
  | tail _ hstep ih =>
    obtain ⟨l, hl, hposition⟩ := ih
    cases hstep with
    | shift htok _ _ _ =>
      obtain ⟨_, _, _, hb⟩ := takes.shift_ok l.store l.context _ l.position
      rw [Run.deeds_leaf, Builder.rehearse_concat, hl, Option.bind_some, Builder.perform,
        (congrArg (tokens[·]?) hposition).trans htok]
      dsimp only
      rw [hb]
      exact ⟨_, rfl, congrArg (· + 1) hposition⟩
    | @reduce _ _ _ _ _ _ _ _ _ p _ _ hprod _ _ _ _ =>
      obtain ⟨_, _, _, hb⟩ := takes.reduce_ok l.store l.context p (l.values.take p.rhs.length).reverse
      rw [Run.deeds_node, Builder.rehearse_concat, hl, Option.bind_some, Builder.perform, hg.index_eq _ p hprod, hprod]
      dsimp only
      rw [hb]
      exact ⟨_, rfl, hposition⟩

lemma Constructed.accepts (h : P.Constructed prefers g) (takes : P.builder.NeverRejects)
    (hstart : ∀ p ∈ g.productions, Symbol.nonterm 0 ∉ p.rhs)
    (he : EndsOnce P.builder.terminal g.endTerminal tokens) (hend : g.endTerminal ∉ Construction.preferred prefers g)
    (store : δ) {tree : ParseTree τ} (ht : tree.IsParse P.builder.terminal g tokens)
    (hkeeps : Keeps prefers g P.builder.terminal tokens (tree.ends 0)) : ∃ values, P.Accepts tokens store values := by
  obtain ⟨_, _, _, _, hrun, hdeeds, _⟩ := Run.exists_run_of_parse h.numbered hstart he ht
  obtain ⟨l, hl, _⟩ := exists_rehearsal takes h.numbered store hrun
  rw [hdeeds, ← h.productions_eq] at hl
  exact ⟨l.values, h.accepts_rehearsed hstart he hend ht hkeeps hl⟩

section Transfer

variable {ν' κ' ε' δ' : Type} {Q : Parser τ ν' κ' ε' δ'}

structure Alongside (p : Path ν κ) (q : Path ν' κ') : Prop where
  position_eq : q.position = p.position
  states_eq : q.states = p.states
  length_eq : q.values.length = p.values.length

variable (hT : Q.table = P.table) (hterminal : Q.builder.terminal = P.builder.terminal)

include hT hterminal

lemma Alongside.cell_eq {p : Path ν κ} {q : Path ν' κ'} (h : Alongside p q) : Q.cell tokens q = P.cell tokens p := by
  have hoptions : Q.options = P.options := by
    funext state token
    rw [options, options, hT, hterminal]
  rw [cell, cell, h.states_eq, h.position_eq, hoptions]

lemma Alongside.movesTo (takes : Q.builder.NeverRejects) (store : δ') {p p' : Path ν κ} {q : Path ν' κ'}
    (h : Alongside p q) (hm : P.MovesTo tokens p p') : ∃ q', Q.MovesTo tokens q q' ∧ Alongside p' q' := by
  obtain ⟨token, actions, action, _, _, hc, ha, hm⟩ := hm
  rw [← h.cell_eq hT hterminal] at hc
  cases action with
  | shift target =>
    obtain ⟨hlast, _, _, _, rfl⟩ := shift_next hm
    obtain ⟨_, context, value, hb⟩ := takes.shift_ok store q.context token q.position
    refine ⟨_, ⟨token, actions, _, _, _, hc, ha, move_shift (h.position_eq.symm ▸ hlast) hb⟩, ?_, ?_, ?_⟩
    · exact congrArg (· + 1) h.position_eq
    · exact congrArg (target :: ·) h.states_eq
    · exact congrArg (· + 1) h.length_eq
  | reduce index =>
    obtain ⟨production, exposed, target, _, _, hp, hexposed, hle, hg, _, rfl⟩ := reduce_next hm
    obtain ⟨_, context, value, hb⟩ := takes.reduce_ok store q.context production
      (q.values.take production.rhs.length).reverse
    rw [← hT] at hp hg
    have hm' : Q.move tokens store q token (.reduce index) = _ :=
      move_reduce hp (h.states_eq.symm ▸ hexposed) (h.length_eq.symm ▸ hle) hg hb
    refine ⟨_, ⟨token, actions, _, _, _, hc, ha, hm'⟩, h.position_eq, ?_, ?_⟩
    · exact congrArg (fun l => target :: List.drop production.rhs.length l) h.states_eq
    · rw [List.length_cons, List.length_cons, List.length_drop, List.length_drop, h.length_eq]
  | accept => exact absurd hm accept_ne_next

lemma Accepts.transfer (takes : Q.builder.NeverRejects) {store : δ} {values : List ν}
    (h : P.Accepts tokens store values) (store' : δ') : ∃ values', Q.Accepts tokens store' values' := by
  obtain ⟨p, token, actions, hp, hc, ha, hvalues⟩ := h
  have hpath : ∃ q, Relation.ReflTransGen (Q.MovesTo tokens) (Q.start store').path q ∧ Alongside p q := by
    clear hc hvalues
    induction hp with
    | refl => exact ⟨_, .refl, rfl, rfl, rfl⟩
    | tail _ hm ih =>
      obtain ⟨q, hq, hside⟩ := ih
      obtain ⟨q', hm', hside'⟩ := hside.movesTo hT hterminal takes store' hm
      exact ⟨q', hq.tail hm', hside'⟩
  obtain ⟨q, hq, hside⟩ := hpath
  exact ⟨q.values, q, token, actions, hq, (hside.cell_eq hT hterminal).trans hc, ha, rfl⟩

end Transfer

lemma Constructed.exists_parse (h : P.Constructed prefers g) (hstart : ∀ p ∈ g.productions, Symbol.nonterm 0 ∉ p.rhs)
    (he : EndsOnce P.builder.terminal g.endTerminal tokens) {store : δ} {values : List ν}
    (ha : P.Accepts tokens store values) : ∃ tree : ParseTree τ, tree.IsParse P.builder.terminal g tokens := by
  let Q : Parser τ (ParseTree τ) Unit Unit Unit :=
    { table := P.table, builder := .trees P.builder.terminal fun _ _ => () }
  have hQ : Q.Parses tokens prefers g := ⟨⟨h.table_eq, h.numbered⟩, hstart, Builder.buildsTrees_trees _ _, he⟩
  obtain ⟨values', q, token, actions, hq, hc, ha, hvalues⟩ :=
    Accepts.transfer (P := P) (Q := Q) rfl rfl (Builder.neverRejects_trees _ _) ha ()
  have hreads : ∃ symbols, Q.Reads tokens g q symbols := by
    clear hc hvalues
    induction hq with
    | refl => exact ⟨[], reads_start hQ ()⟩
    | tail _ hm ih => exact Reads.movesTo hQ ih hm
  obtain ⟨symbols, hreads⟩ := hreads
  obtain ⟨tree, _, htree⟩ := hreads.accept hQ hc ha
  exact ⟨tree, htree⟩

end Search.Parser

end Ramify
