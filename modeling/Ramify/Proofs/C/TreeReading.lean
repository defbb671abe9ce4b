import Ramify.C.FrontEnd
import Ramify.Proofs.Search.Simulation

namespace Ramify.C

namespace Pool

structure Holds (pool : Pool) (id : Nat) (t : Tree) : Prop where
  lt : id < pool.size
  tree_eq : pool.tree id = t
  part_eq : pool.part id = t.part

variable {pool : Pool} {id : Nat} {t : Tree}

lemma getElem?_push (node : PoolNode) (h : id < pool.size) :
    (pool.push node).1.nodes[id]? = pool.nodes[id]? := by
  rw [push, Array.getElem?_push, if_neg]
  exact Nat.ne_of_lt h

lemma getElem?_push_size (node : PoolNode) : (pool.push node).1.nodes[pool.size]? = some node := by
  rw [push, Array.getElem?_push, if_pos]
  rfl

lemma size_push (node : PoolNode) : (pool.push node).1.size = pool.size + 1 := by
  rw [push, size, Array.size_push, size]

lemma tree_push (node : PoolNode) (h : id < pool.size) : (pool.push node).1.tree id = pool.tree id := by
  induction id using Nat.strong_induction_on with
  | _ id ih =>
    rw [tree, tree, getElem?_push node h]
    have hchildren : ∀ c : Nat, (if _h : c < id then (pool.push node).1.tree c else .leaf c {}) =
        if _h : c < id then pool.tree c else .leaf c {} := by
      intro c
      split
      · rename_i hc
        exact ih c hc (hc.trans h)
      · rfl
    simp only [hchildren]

lemma Holds.push (h : pool.Holds id t) (node : PoolNode) : (pool.push node).1.Holds id t := by
  refine ⟨?_, ?_, ?_⟩
  · rw [size_push]
    exact h.lt.trans (Nat.lt_succ_self _)
  · rw [tree_push node h.lt, h.tree_eq]
  · rw [part, getElem?_push node h.lt, ← h.part_eq, part]

lemma holds_terminal (pool : Pool) (token : Nat) (span : Span) :
    (pool.push { kind := .terminal token, children := [], span }).1.Holds pool.size (.leaf token span) := by
  refine ⟨?_, ?_, ?_⟩
  · rw [size_push]
    exact Nat.lt_succ_self _
  · rw [tree, getElem?_push_size]
  · rw [part, getElem?_push_size]
    rfl

lemma holds_nonterminal (production : Nat) (span : Span) (annotations : Annotations) {children : List Nat}
    {ts : List Tree} (h : List.Forall₂ pool.Holds children ts) :
    (pool.push { kind := .nonterminal production, children, span, annotations }).1.Holds pool.size
      (.node production span annotations ts) := by
  refine ⟨?_, ?_, ?_⟩
  · rw [size_push]
    exact Nat.lt_succ_self _
  · rw [tree, getElem?_push_size]
    dsimp only
    refine congrArg _ ?_
    rw [← List.forall₂_eq_eq_eq, List.forall₂_map_left_iff]
    refine h.imp fun {c t} hc => ?_
    rw [dif_pos hc.lt, tree_push _ hc.lt, hc.tree_eq]
  · rw [part, getElem?_push_size]
    rfl

lemma parts_eq {children : List Nat} {ts : List Tree} (h : List.Forall₂ pool.Holds children ts) :
    children.map pool.part = ts.map Tree.part := by
  rw [← List.forall₂_eq_eq_eq, List.forall₂_map_left_iff, List.forall₂_map_right_iff]
  exact h.imp fun {_ _} hc => hc.part_eq

lemma trees_eq {roots : List Nat} {ts : List Tree} (h : List.Forall₂ pool.Holds roots ts) :
    roots.map pool.tree = ts := by
  rw [← List.forall₂_eq_eq_eq, List.forall₂_map_left_iff]
  exact h.imp fun {_ _} hc => hc.tree_eq

end Pool

namespace Reader

variable (R : Reader)

def treeBuilder : Builder Token Tree Context FrontError Unit where
  terminal t := R.vocabulary.terminal? t.kind
  initial := {}
  shift _ ctx token index := ((), .ok (contextAfter ctx token.kind, .leaf index token.span))
  reduce _ ctx p children :=
    let parts := children.map Tree.part
    ((), (R.interpret ctx p.index parts).map fun (ctx, annotations) =>
      (ctx, .node p.index (spanOf parts) annotations children))
  syntaxError t _ := unexpected t

lemma treeBuilder_mirrors : R.treeBuilder.Mirrors R.builder Pool.Holds where
  terminal_eq := rfl
  initial_eq := rfl
  syntaxError_eq := rfl
  shift pool ctx token index := .ok _ (pool.holds_terminal index token.span)
  reduce := by
    intro pool ctx p children ts h
    change Builder.Matches (Pool.Holds (R.reduce pool ctx p children).1) (R.reduce pool ctx p children).2
      ((R.interpret ctx p.index (ts.map Tree.part)).map _)
    rw [reduce, Pool.parts_eq h]
    cases R.interpret ctx p.index (ts.map Tree.part) with
    | error e => exact .error e
    | ok r => exact .ok _ (Pool.holds_nonterminal _ _ _ h)
  shift_view ctx token index h := h.push _
  reduce_view := by
    intro pool id t ctx p children h
    change (R.reduce pool ctx p children).1.Holds id t
    rw [reduce]
    cases R.interpret ctx p.index (children.map pool.part) with
    | error e => exact h
    | ok r => exact h.push _

end Reader

namespace FrontEnd

open Search

variable (E : FrontEnd) (tokens : Array Token)

def treeParser : Parser Token Tree Context FrontError Unit where
  table := E.vocabulary.table
  builder := (E.reader tokens).treeBuilder

def Reads (trees : List Tree) : Prop :=
  ∃ es, (E.treeParser tokens).Explores tokens () ((E.treeParser tokens).start ()).path 0 () es ∧
    accepted es = trees

variable {E tokens}

lemma treeParser_mirrors : (E.treeParser tokens).Mirrors (E.parser tokens) Pool.Holds :=
  ⟨rfl, (E.reader tokens).treeBuilder_mirrors⟩

lemma reads_of_explores {store : Pool} {es : List (Ending Nat FrontError)}
    (h : (E.parser tokens).Explores tokens {} ((E.parser tokens).start {}).path 0 store es) :
    E.Reads tokens ((accepted es).map store.tree) := by
  obtain ⟨_, es', hes', hviews⟩ := treeParser_mirrors.explores h
    (q := ((E.treeParser tokens).start ()).path) ⟨rfl, rfl, rfl, .nil⟩
  exact ⟨es', hes', (Pool.trees_eq (accepted_views hviews)).symm⟩

lemma reads_of_parseTokens {trees : List Tree} {stats : Stats} (h : E.parseTokens tokens = .ok (trees, stats)) :
    E.Reads tokens trees := by
  rw [parseTokens] at h
  cases hr : (E.search tokens).result with
  | error f =>
    rw [hr] at h
    cases h
  | ok roots =>
    rw [hr] at h
    cases h
    obtain ⟨_, es, hes, rfl⟩ := Parser.parse_ok hr
    exact reads_of_explores hes

lemma reads_of_noParse {e : FrontError} (h : (E.search tokens).result = .error (.noParse e)) :
    E.Reads tokens [] := by
  obtain ⟨store, es, hes, hnil, _⟩ := Parser.parse_noParse h
  have hh := reads_of_explores hes
  rwa [hnil] at hh

end FrontEnd

end Ramify.C
