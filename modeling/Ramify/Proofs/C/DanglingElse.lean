import Ramify.Proofs.C.TreeSpans
import Ramify.Proofs.Parse.NodeEnds

namespace Ramify.C

open LR Search

section Paths

variable {R : Reader} {L : Parser Token Tree Context FrontError Unit} {prefers : List String} {g : Grammar}
  {p q : Path Tree Context}

def Tree.Reduced (L : Parser Token Tree Context FrontError Unit) (tokens : Array Token) : Tree → Prop
  | .leaf _ _ => True
  | .node index _ _ children => ∃ first count token state, 0 < count ∧
      Tree.forestLeaves children = List.range' first count ∧ tokens[first + count]? = some token ∧
      Action.reduce index ∈ L.options state token

lemma Tree.Reduced.leaves_ne_nil {tokens : Array Token} {t : Tree} (h : t.Reduced L tokens) : t.leaves ≠ [] := by
  cases t with
  | leaf token span => exact List.cons_ne_nil _ _
  | node index span annotations children =>
    obtain ⟨first, count, _, _, hpos, hrun, _⟩ := h
    rw [Tree.leaves, hrun, Ne, List.range'_eq_nil_iff]
    exact hpos.ne'

structure Reader.Gathers (R : Reader) (L : Parser Token Tree Context FrontError Unit) (p : Path Tree Context) :
    Prop where
  position_lt : p.position < R.tokens.size
  leaves_eq : Tree.forestLeaves p.values.reverse = List.range p.position
  reduced : ∀ t ∈ p.values, ∀ s ∈ t.subtrees, s.Reduced L R.tokens

namespace Reader

variable (hC : L.Constructed prefers g) (hB : R.Builds L.builder)

include hC hB

lemma Gathers.movesTo (hright : ∀ production ∈ g.productions, production.rhs ≠ []) (h : R.Gathers L p)
    (hm : L.MovesTo R.tokens p q) : R.Gathers L q := by
  have hleaves := leaves_movesTo hB h.leaves_eq hm
  have hlt : q.position < R.tokens.size := by
    rcases hm.position_cases with he | ⟨_, hlt⟩
    · exact he ▸ h.position_lt
    · exact hlt
  obtain ⟨token, actions, action, _, _, hc, ha, hm⟩ := hm
  refine ⟨hlt, hleaves, ?_⟩
  cases action with
  | shift target =>
    obtain ⟨_, context, value, hb, rfl⟩ := Parser.shift_next hm
    rw [hB.shift_eq] at hb
    cases hb
    refine List.forall_mem_cons.mpr ⟨fun s hs => ?_, h.reduced⟩
    obtain rfl := List.mem_singleton.mp hs
    exact trivial
  | reduce index =>
    obtain ⟨htok, state, rfl⟩ := Parser.cell_inv h.position_lt hc
    obtain ⟨production, _, _, context, value, hprod, _, hle, _, hb, rfl⟩ := Parser.reduce_next hm
    obtain ⟨annotations, _, hmade⟩ := hB.reduce_ok hb
    obtain ⟨rfl, rfl⟩ := Prod.mk.inj hmade
    refine List.forall_mem_cons.mpr ⟨fun s hs => ?_, fun t ht => h.reduced t (List.mem_of_mem_drop ht)⟩
    have hchildren : ∀ t ∈ (p.values.take production.rhs.length).reverse, ∀ s ∈ t.subtrees, s.Reduced L R.tokens :=
      fun t ht => h.reduced t (List.mem_of_mem_take (List.mem_reverse.mp ht))
    rw [Tree.subtrees, List.mem_cons, Tree.mem_forestSubtrees] at hs
    rcases hs with rfl | ⟨t, ht, hs⟩
    · -- The new node ends where the path stands, in front of the token of the cell.
      obtain ⟨k, hk, hrun⟩ := leaves_take production.rhs.length h.leaves_eq
      obtain ⟨t, ht⟩ := List.exists_mem_of_ne_nil _ (gathered_ne_nil hC hright hprod hle)
      have hne : List.range' k (p.position - k) ≠ [] := by
        rw [← hrun]
        exact fun hnil => (hchildren t ht t t.mem_subtrees_self).leaves_ne_nil
          (List.subset_nil.mp (hnil ▸ Tree.leaves_subset ht))
      have hindex : production.index = index := hC.numbered.index_eq index production (hC.productions_eq ▸ hprod)
      refine ⟨k, p.position - k, token, state, ?_, hrun, by rwa [Nat.add_sub_cancel' hk], hindex ▸ ha⟩
      rw [Ne, List.range'_eq_nil_iff] at hne
      exact Nat.pos_of_ne_zero hne
    · exact hchildren t ht s hs
  | accept => exact absurd hm Parser.accept_ne_next

lemma reduced_of_explores (hright : ∀ production ∈ g.productions, production.rhs ≠ []) (hsize : 0 < R.tokens.size)
    {es : List (Ending Tree FrontError)} (hes : L.Explores R.tokens () (L.start ()).path 0 () es) :
    ∀ t ∈ accepted es, ∀ s ∈ t.subtrees, s.Reduced L R.tokens := by
  refine hes.accepted_invariant (I := R.Gathers L) (fun p q hp hm => hp.movesTo hC hB hright hm) ?_ ⟨hsize, rfl, nofun⟩
  intro p token actions t values hp _ _ hvalues
  exact hp.reduced t (hvalues ▸ List.mem_cons_self)

end Reader

end Paths

lemma Rules.ifElse_extends : ∃ short ∈ rules, short.label = some "ifThen" ∧
    ∃ long ∈ rules, long.left = short.left ∧ long.right = short.right ++ [.term "else", .nonterm "Statement"] := by
  decide +kernel

namespace Vocabulary.Standard

open Rules

variable {V : Vocabulary} {g : Grammar} (h : V.Standard g)

include h

lemma ifThen_not_reduced : ∃ p, V.table.production? "ifThen" = some p ∧
    ∀ s t, V.terminal? (.keyword .else_) = some t → .reduce p.index ∉ V.table.actionsAt s t := by
  obtain ⟨short, hshort, hlabel, long, hlong, hleft, hright⟩ := ifElse_extends
  obtain ⟨i, hi⟩ := List.mem_iff_getElem?.mp hshort
  obtain ⟨j, hj⟩ := List.mem_iff_getElem?.mp hlong
  obtain ⟨p, hp, hplhs, hprhs, hplabel⟩ := Grammar.ofRules_production h.grammar_eq hi
  obtain ⟨q, hq, hqlhs, hqrhs, _⟩ := Grammar.ofRules_production h.grammar_eq hj
  have hindex := h.numbered.index_eq (i + 1) p hp
  refine ⟨p, ?_, fun s t ht => ?_⟩
  · rw [← hplabel _ hlabel]
    exact h.production?_label hp
  · have hnodup := Grammar.ofRules_terminals_nodup h.grammar_eq
    have helse : g.terminals[t]? = some "else" := by
      rw [Grammar.ofRules_terminals h.grammar_eq, List.getElem?_toArray]
      exact h.terminal_name ht
    have hterm : Grammar.numberOf rules (.term "else") = .term t := Grammar.numberOf_term (h.terminal_name ht)
    have hrest : q.rhs = p.rhs ++ .term t :: [Grammar.numberOf rules (.nonterm "Statement")] := by
      rw [hqrhs, hright, List.map_append, hprhs, List.map_cons, hterm]
      rfl
    have hlhs : q.lhs = p.lhs := by
      rw [hleft, ← hplhs] at hqlhs
      exact Symbol.nonterm.inj hqlhs
    rw [h.table_eq, hindex]
    exact Construction.reduce_notMem_actionsAt h.numbered hnodup hp hq hlhs hrest helse List.mem_cons_self s

end Vocabulary.Standard

namespace FrontEnd

lemma ifThen_not_followed {V : Vocabulary} (hV : standard = some V) : ∃ p, V.table.production? "ifThen" = some p ∧
    ∀ (config : Config) tokens trees stats, (FrontEnd.mk V config).parseTokens tokens = .ok (trees, stats) →
      ∀ tree ∈ trees, ∀ span annotations children, .node p.index span annotations children ∈ tree.subtrees →
        ∃ first count token, 0 < count ∧ Tree.forestLeaves children = List.range' first count ∧
          tokens[first + count]? = some token ∧ token.kind ≠ .keyword .else_ := by
  obtain ⟨g, hg⟩ := standard_eq hV
  obtain ⟨p, hp, hcell⟩ := hg.ifThen_not_reduced
  refine ⟨p, hp, fun config tokens trees stats hf tree htree span annotations children hmem => ?_⟩
  obtain ⟨es, hes, hfound⟩ := reads_of_parseTokens hf
  have hsize : 0 < tokens.size := by
    refine Array.size_pos_iff.mpr fun hempty => ?_
    rw [hempty] at hf
    cases hf
  have hreduced := Reader.reduced_of_explores (R := (FrontEnd.mk V config).reader tokens) ⟨hg.table_eq, hg.numbered⟩
    (Reader.builds_tree _) (fun _ => hg.rhs_ne_nil) hsize hes tree (hfound ▸ htree) _ hmem
  obtain ⟨first, count, token, state, hpos, hrun, htok, ha⟩ := hreduced
  refine ⟨first, count, token, hpos, hrun, htok, fun hkind => ?_⟩
  cases hterm : V.terminal? token.kind with
  | none =>
    have hnone : ((FrontEnd.mk V config).treeParser tokens).builder.terminal token = none := hterm
    rw [Parser.options, hnone] at ha
    cases ha
  | some t => exact Parser.terminal_ne_of_reduce (fun s => hcell s t (hkind ▸ hterm)) ha hterm

end FrontEnd

/-- A terminal that prefers shifting belongs to the nearest production that can go on with it: no
cell for this terminal, hence no step of a search in front of it, reduces the shorter one,
and in no tree that is found it follows a node of the shorter one. So in C an `else` belongs
to the nearest `if`. -/
theorem prefer_shift_nearest {τ ν κ ε δ : Type} :
    (∀ {text : String} {options : Options} {K : Construction}, construct text options = .ok K →
      ∀ {p q t : Nat} {short long : Production} {rest : List Symbol} {name : String},
      K.grammar.productions[p]? = some short → K.grammar.productions[q]? = some long →
      long.lhs = short.lhs → long.rhs = short.rhs ++ .term t :: rest →
      K.grammar.terminals[t]? = some name → name ∈ options.preferShift →
      (∀ s, .reduce p ∉ K.table.actionsAt s t) ∧
      (∀ (P : Parser τ ν κ ε δ) (tokens : Array τ) (store : δ) S token, P.table = K.table →
        P.Reaches tokens (P.start store) S → P.Chooses tokens S token (.reduce p) →
        tokens[S.path.position]? = some token ∧ P.builder.terminal token ≠ some t) ∧
      ∀ (P : Parser τ (ParseTree τ) κ ε δ) (tokens : Array τ) (before : Stats) (store : δ) found,
        P.table = K.table → P.builder.BuildsTrees → (P.parse before store tokens).result = .ok found →
        ∀ tree ∈ found, ∃ front back, tokens.toList = front ++ tree.leaves ++ back ∧
          ∀ stop, (short, stop) ∈ tree.ends front.length →
            ∃ token, tokens[stop]? = some token ∧ P.builder.terminal token ≠ some t) ∧
    ∀ V, standard = some V → ∃ p, V.table.production? "ifThen" = some p ∧
      ∀ (config : Config) tokens trees stats, (FrontEnd.mk V config).parseTokens tokens = .ok (trees, stats) →
        ∀ tree ∈ trees, ∀ span annotations children, .node p.index span annotations children ∈ tree.subtrees →
          ∃ first count token, 0 < count ∧ Tree.forestLeaves children = List.range' first count ∧
            tokens[first + count]? = some token ∧ token.kind ≠ .keyword .else_ := by
  refine ⟨fun hK => ?_, fun V hV => FrontEnd.ifThen_not_followed hV⟩
  intro p q t short long rest name hp hq hleft hright ht hname
  exact Parser.preferred_not_followed hK hp hq hleft hright ht hname

def dangling : Grammar where
  terminals := #["i", "e", "a", "end"]
  nonterminals := #["Start", "S"]
  productions := #[⟨0, "start", 0, 1, [.nonterm 1]⟩, ⟨1, "s1", 1, 1, [.term 0, .nonterm 1]⟩,
    ⟨2, "s2", 1, 2, [.term 0, .nonterm 1, .term 1, .nonterm 1]⟩, ⟨3, "s3", 1, 3, [.term 2]⟩]

def danglingText : String := "S -> i S\nS -> i S e S\nS -> a"

def danglingParser (prefers : List String) : Parser Nat (ParseTree Nat) Unit Unit Unit where
  table := (Construction.ofGrammar prefers dangling).table
  builder := .trees some fun _ _ => ()

lemma construct_dangling (prefers : List String) :
    construct danglingText { preferShift := prefers } = .ok (.ofGrammar prefers dangling) := by
  have hparse : Grammar.parse danglingText = .ok dangling := by decide +kernel
  rw [construct, hparse]
  rfl

theorem prefer_shift_nearest_dangling : (∃ s, .reduce 1 ∈ (danglingParser []).table.actionsAt s 1) ∧
    (∀ s, .reduce 1 ∉ (danglingParser ["e"]).table.actionsAt s 1) ∧
    ∃ tree, ((danglingParser ["e"]).parse {} () #[0, 0, 2, 1, 2, 3]).result = .ok [tree] ∧
      (⟨1, "s1", 1, 1, [.term 0, .nonterm 1]⟩, 5) ∈ tree.ends 0 ∧
      ∃ front back, [0, 0, 2, 1, 2, 3] = front ++ tree.leaves ++ back ∧
        ∀ stop, (⟨1, "s1", 1, 1, [.term 0, .nonterm 1]⟩, stop) ∈ tree.ends front.length →
          ∃ token, #[0, 0, 2, 1, 2, 3][stop]? = some token ∧ some token ≠ some 1 := by
  have hconflict : ∃ s < 7, .reduce 1 ∈ (danglingParser []).table.actionsAt s 1 := by decide +kernel
  have hparse : ((danglingParser ["e"]).parse {} () #[0, 0, 2, 1, 2, 3]).result = .ok
      [.node ⟨1, "s1", 1, 1, [.term 0, .nonterm 1]⟩ [.leaf 0,
        .node ⟨2, "s2", 1, 2, [.term 0, .nonterm 1, .term 1, .nonterm 1]⟩ [.leaf 0,
          .node ⟨3, "s3", 1, 3, [.term 2]⟩ [.leaf 2], .leaf 1, .node ⟨3, "s3", 1, 3, [.term 2]⟩ [.leaf 2]]]] := by
    decide +kernel
  have hpreferred := (@prefer_shift_nearest Nat Unit Unit Unit Unit).1 (construct_dangling ["e"]) (p := 1) (q := 2)
    (t := 1) rfl rfl rfl rfl rfl List.mem_cons_self
  obtain ⟨s, _, hs⟩ := hconflict
  refine ⟨⟨s, hs⟩, hpreferred.1, _, hparse, List.mem_cons_self, ?_⟩
  exact hpreferred.2.2 (danglingParser ["e"]) _ _ _ _ rfl (Builder.buildsTrees_trees _ _) hparse _ List.mem_cons_self

end Ramify.C
