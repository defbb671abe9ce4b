import Ramify.Proofs.Parse.NodeEnds
import Ramify.Proofs.Parse.Stacks

namespace Ramify.Search.Parser

open LR

variable {τ κ ε δ : Type} {P : Parser τ (ParseTree τ) κ ε δ} {tokens : Array τ} {prefers : List String}
  {g : Grammar}

structure Parses (P : Parser τ (ParseTree τ) κ ε δ) (tokens : Array τ) (prefers : List String)
    (g : Grammar) : Prop extends P.Constructed prefers g where
  isolated : ∀ p ∈ g.productions, Symbol.nonterm 0 ∉ p.rhs
  trees : P.builder.BuildsTrees
  ends : EndsOnce P.builder.terminal g.endTerminal tokens

structure Reads (P : Parser τ (ParseTree τ) κ ε δ) (tokens : Array τ) (g : Grammar)
    (p : Path (ParseTree τ) κ) (symbols : List Symbol) : Prop
    extends P.Stands tokens g (ParseTree.Derives P.builder.terminal g.productions) p symbols where
  leaves_eq : ParseTree.forestLeaves p.values.reverse = tokens.toList.take p.position

lemma reads_start (h : P.Parses tokens prefers g) (store : δ) : P.Reads tokens g (P.start store).path [] :=
  ⟨stands_start h.ends.nonempty store, rfl⟩

lemma Parses.keeps (h : P.Parses tokens prefers g) :
    P.builder.Keeps tokens g.productions (ParseTree.Derives P.builder.terminal g.productions) := by
  refine ⟨fun hb _ ht => ?_, fun hb hp hc => ?_⟩
  · exact h.trees.shift_eq hb ▸ .leaf ht
  · exact h.trees.reduce_eq hb ▸ .node (Array.mem_of_getElem? hp) hc

lemma Reads.shift (h : P.Parses tokens prefers g) {p q : Path (ParseTree τ) κ} {symbols : List Symbol}
    (hp : P.Reads tokens g p symbols) {token : τ} {actions : List Action} {target : Nat} {store store' : δ}
    (hc : P.cell tokens p = some (token, actions)) (ha : Action.shift target ∈ actions)
    (hm : P.move tokens store p token (.shift target) = (store', .next q)) :
    ∃ t, P.Reads tokens g q (.term t :: symbols) := by
  obtain ⟨_, _, _, _, htok, _, _⟩ := hp.mem_cell h.toConstructed hc ha
  obtain ⟨t, _, hq⟩ := hp.toStands.shift h.toConstructed h.keeps hc ha hm
  exact ⟨t, hq, leaves_shift h.trees htok hp.leaves_eq hm⟩

lemma Reads.reduce (h : P.Parses tokens prefers g) {p q : Path (ParseTree τ) κ} {symbols : List Symbol}
    (hp : P.Reads tokens g p symbols) {token : τ} {actions : List Action} {index : Nat} {store store' : δ}
    (hc : P.cell tokens p = some (token, actions)) (ha : Action.reduce index ∈ actions)
    (hm : P.move tokens store p token (.reduce index) = (store', .next q)) :
    ∃ production : Production,
      P.Reads tokens g q (.nonterm production.lhs :: symbols.drop production.rhs.length) := by
  obtain ⟨production, _, _, hq⟩ := hp.toStands.reduce h.toConstructed h.keeps hc ha hm
  obtain ⟨hleaves, hposition⟩ := leaves_reduce h.trees hm
  exact ⟨production, hq, by rw [hleaves, hposition, hp.leaves_eq]⟩

lemma Reads.movesTo (h : P.Parses tokens prefers g) {p q : Path (ParseTree τ) κ}
    (hp : ∃ symbols, P.Reads tokens g p symbols) (hm : P.MovesTo tokens p q) :
    ∃ symbols, P.Reads tokens g q symbols := by
  obtain ⟨symbols, hp⟩ := hp
  obtain ⟨token, actions, action, store, store', hc, ha, hm⟩ := hm
  cases action with
  | shift target =>
    obtain ⟨t, hq⟩ := hp.shift h hc ha hm
    exact ⟨_, hq⟩
  | reduce index =>
    obtain ⟨production, hq⟩ := hp.reduce h hc ha hm
    exact ⟨_, hq⟩
  | accept => exact absurd hm accept_ne_next

lemma Reads.accept (h : P.Parses tokens prefers g) {p : Path (ParseTree τ) κ} {symbols : List Symbol}
    (hp : P.Reads tokens g p symbols) {token : τ} {actions : List Action}
    (hc : P.cell tokens p = some (token, actions)) (ha : Action.accept ∈ actions) :
    ∃ tree, p.values = [tree] ∧ tree.IsParse P.builder.terminal g tokens := by
  obtain ⟨first, tree, hfirst, _, hvalues, htree⟩ := hp.toStands.accept h.toConstructed h.isolated hc ha
  have hposition := hp.accept_position h.toConstructed hc ha
  have hend : p.position + 1 = tokens.size := (h.ends.end_iff _ _ hposition.1).mp hposition.2
  have hleaves := hp.leaves_eq
  refine ⟨tree, hvalues, first, hfirst, htree, ?_⟩
  rw [hvalues, List.reverse_singleton, ParseTree.forestLeaves_singleton] at hleaves
  rw [hleaves, List.dropLast_eq_take, Array.length_toList, ← hend, Nat.add_sub_cancel]

lemma Reads.of_reaches (h : P.Parses tokens prefers g) {store : δ} {S : State (ParseTree τ) κ ε δ}
    (hS : P.Reaches tokens (P.start store) S) : ∃ symbols, P.Reads tokens g S.path symbols := by
  refine hS.invariant (fun p q hp hm => Reads.movesTo h hp hm) (fun p hp => ?_) S.path List.mem_cons_self
  obtain rfl := List.mem_singleton.mp hp
  exact ⟨[], reads_start h store⟩

lemma Parses.accepted (h : P.Parses tokens prefers g) {store store' : δ} {es : List (Ending (ParseTree τ) ε)}
    (he : P.Explores tokens store (P.start store).path 0 store' es) :
    ∀ tree ∈ accepted es, tree.IsParse P.builder.terminal g tokens := by
  refine he.accepted_invariant (fun p q hp hm => Reads.movesTo h hp hm) ?_ ⟨[], reads_start h store⟩
  rintro p token actions value values ⟨symbols, hp⟩ hc ha hvalues
  obtain ⟨tree, htree, hparse⟩ := hp.accept h hc ha
  rw [htree] at hvalues
  exact (List.cons.inj hvalues).1 ▸ hparse

lemma Parses.of_construct {text : String} {options : Options} {K : Construction}
    (hK : construct text options = .ok K) (hstart : ∀ p ∈ K.grammar.productions, Symbol.nonterm 0 ∉ p.rhs)
    (hT : P.table = K.table) (hB : P.builder.BuildsTrees)
    (he : EndsOnce P.builder.terminal K.table.endMark tokens) :
    P.Parses tokens options.preferShift K.grammar ∧
      (Construction.ofGrammar options.preferShift K.grammar).conflicts = K.conflicts := by
  obtain ⟨g, hg, rfl⟩ := construct_ok hK
  exact ⟨⟨⟨hT, hg⟩, hstart, hB, he⟩, rfl⟩

/-- Everything a search finds is a parse of the input; no goto is missing, and no reduction asks
for more than there is on the stacks. -/
theorem parse_sound {text : String} {options : Options} {K : Construction}
    (hK : construct text options = .ok K) (hstart : ∀ p ∈ K.grammar.productions, Symbol.nonterm 0 ∉ p.rhs)
    (hT : P.table = K.table) (hB : P.builder.BuildsTrees)
    (he : EndsOnce P.builder.terminal K.table.endMark tokens) (before : Stats) (store : δ) :
    (∀ found, (P.parse before store tokens).result = .ok found →
      ∀ tree ∈ found, tree.IsParse P.builder.terminal K.grammar tokens) ∧
    (∀ state n, (P.parse before store tokens).result ≠ .error (.missingGoto state n)) ∧
    ∀ S token index, P.Reaches tokens (P.start store) S → P.Chooses tokens S token (.reduce index) →
      ∃ p, P.table.productions[index]? = some p ∧ p.rhs.length ≤ S.path.values.length ∧
        p.rhs.length < S.path.states.length := by
  obtain ⟨h, _⟩ := Parses.of_construct hK hstart hT hB he
  have hpop : ∀ S token index, P.Reaches tokens (P.start store) S →
      P.Chooses tokens S token (.reduce index) → ∃ p exposed target,
        P.table.productions[index]? = some p ∧ p.rhs.length ≤ S.path.values.length ∧
        S.path.states[p.rhs.length]? = some exposed ∧ P.table.goto? exposed p.lhs = some target := by
    rintro S token index hS ⟨actions, hc, ha⟩
    obtain ⟨symbols, hr⟩ := Reads.of_reaches h hS
    obtain ⟨p, exposed, target, hp, hle, _, hs, _, hg⟩ := hr.reduction h.toConstructed hc (List.mem_of_getElem? ha)
    rw [hr.good.length_eq] at hle
    exact ⟨p, exposed, target, h.productions_eq.symm ▸ hp, hle, hs, hg⟩
  refine ⟨fun found hf => ?_, fun state n hf => ?_, fun S token index hS hc => ?_⟩
  · obtain ⟨_, es, hes, rfl⟩ := parse_ok hf
    exact h.accepted hes
  · have hgoto := parse_missingGoto hf
    obtain ⟨S, token, index, p, exposed, hS, hc, hp, hs, hg⟩ := hgoto
    obtain ⟨p', exposed', target, hp', _, hs', hg'⟩ := hpop S token index hS hc
    obtain rfl := Option.some.inj (hp.symm.trans hp')
    obtain rfl := Option.some.inj (hs.symm.trans hs')
    rw [hg] at hg'
    cases hg'
  · obtain ⟨p, exposed, target, hp, hle, hs, _⟩ := hpop S token index hS hc
    exact ⟨p, hp, hle, (List.getElem?_eq_some_iff.mp hs).1⟩

def twofold : Grammar where
  terminals := #["x", "end"]
  nonterminals := #["Start", "S"]
  productions := #[⟨0, "start", 0, 1, [.nonterm 1]⟩, ⟨1, "s1", 1, 1, [.term 0]⟩, ⟨2, "s2", 1, 2, [.term 0]⟩]

def twofoldParser : Parser Nat (ParseTree Nat) Unit Unit Unit where
  table := (Construction.ofGrammar [] twofold).table
  builder := .trees some fun _ _ => ()

lemma construct_twofold : construct "S -> x\nS -> x" {} = .ok (.ofGrammar [] twofold) := by
  have hparse : Grammar.parse "S -> x\nS -> x" = .ok twofold := by decide +kernel
  rw [construct, hparse]
  rfl

lemma twofold_isolated : ∀ p ∈ twofold.productions, Symbol.nonterm 0 ∉ p.rhs := by decide

lemma twofold_ends : EndsOnce some 1 #[0, 1] := by
  refine ⟨by decide, fun i token ht => ?_⟩
  rcases i with _ | _ | i
  · cases ht
    decide
  · cases ht
    decide
  · cases ht

lemma parse_twofold : (twofoldParser.parse {} () #[0, 1]).result =
    .ok [.node ⟨1, "s1", 1, 1, [.term 0]⟩ [.leaf 0], .node ⟨2, "s2", 1, 2, [.term 0]⟩ [.leaf 0]] := by
  decide +kernel

theorem parse_sound_twofold : ∃ found, (twofoldParser.parse {} () #[0, 1]).result = .ok found ∧
    found.length = 2 ∧ ∀ tree ∈ found, tree.IsParse some twofold #[0, 1] := by
  have hh := parse_sound (P := twofoldParser) construct_twofold twofold_isolated rfl
    (Builder.buildsTrees_trees _ _) twofold_ends {} ()
  exact ⟨_, parse_twofold, rfl, hh.1 _ parse_twofold⟩

end Ramify.Search.Parser
