import Ramify.Proofs.C.TokenSpans
import Ramify.Proofs.C.TreeReading
import Ramify.Proofs.C.Provisional
import Ramify.Proofs.C.StandardGrammar

/-! Where the trees of a text are. A path has read the tokens before its position, one leaf for each;
a production with something on its right side gathers trees that follow one on the other, so
its node covers a run of tokens and nothing else. -/

namespace Ramify.C

namespace Tree

mutual

def leaves : Tree → List Nat
  | leaf token _ => [token]
  | node _ _ _ children => forestLeaves children

def forestLeaves : List Tree → List Nat
  | [] => []
  | t :: ts => leaves t ++ forestLeaves ts

end

mutual

def subtrees : Tree → List Tree
  | leaf token span => [leaf token span]
  | node p span annotations children => node p span annotations children :: forestSubtrees children

def forestSubtrees : List Tree → List Tree
  | [] => []
  | t :: ts => subtrees t ++ forestSubtrees ts

end

/-- The leaves are a run of so many tokens from the first one on, the span goes from the first to
the last of them, and each child stops before the next one starts. -/
structure Fits (tokens : Array Token) (first count : Nat) (t : Tree) : Prop where
  pos : 0 < count
  leaves_eq : t.leaves = List.range' first count
  start_eq : ∃ a, tokens[first]? = some a ∧ t.span.start = a.span.start
  stop_eq : ∃ b, tokens[first + count - 1]? = some b ∧ t.span.stop = b.span.stop
  apart : t.children.Pairwise fun c d => c.span.start < c.span.stop ∧ c.span.stop ≤ d.span.start

def Exact (tokens : Array Token) (t : Tree) : Prop := ∀ s ∈ t.subtrees, ∃ first count, s.Fits tokens first count

variable {tokens : Array Token} {t : Tree} {ts us : List Tree} {first count : Nat}

lemma forestLeaves_append (ts us : List Tree) : forestLeaves (ts ++ us) = forestLeaves ts ++ forestLeaves us := by
  induction ts with
  | nil => rfl
  | cons t ts ih => rw [List.cons_append, forestLeaves, ih, forestLeaves, List.append_assoc]

lemma forestLeaves_singleton (t : Tree) : forestLeaves [t] = leaves t := by
  rw [forestLeaves, forestLeaves, List.append_nil]

lemma leaves_subset (h : t ∈ ts) : t.leaves ⊆ forestLeaves ts := by
  induction ts with
  | nil => cases h
  | cons u ts ih =>
    rw [forestLeaves]
    rcases List.mem_cons.mp h with rfl | h
    · exact List.subset_append_left _ _
    · exact List.subset_append_of_subset_right _ (ih h)

lemma mem_forestSubtrees {s : Tree} : s ∈ forestSubtrees ts ↔ ∃ t ∈ ts, s ∈ t.subtrees := by
  induction ts with
  | nil => simp [forestSubtrees]
  | cons t ts ih => simp [forestSubtrees, ih]

lemma mem_subtrees_self (t : Tree) : t ∈ t.subtrees := by
  cases t <;> exact List.mem_cons_self

lemma part_span (t : Tree) : t.part.span = t.span := by
  cases t <;> rfl

lemma Exact.fits (h : t.Exact tokens) : ∃ first count, t.Fits tokens first count := h t t.mem_subtrees_self

end Tree

lemma spanOf_concat {parts : List Part} (h : parts ≠ []) (part : Part) :
    spanOf (parts ++ [part]) = (spanOf parts).merge part.span := by
  obtain ⟨first, rest, rfl⟩ := List.exists_cons_of_ne_nil h
  rw [List.cons_append, spanOf, spanOf, List.foldl_append]
  rfl

lemma range'_inj {a b m n : Nat} (h : List.range' a m = List.range' b n) (hm : 0 < m) : a = b ∧ m = n := by
  have hlen := congrArg List.length h
  rw [List.length_range', List.length_range'] at hlen
  subst hlen
  have hhead := congrArg List.head? h
  rw [List.head?_range', List.head?_range', if_neg (Nat.ne_of_gt hm), if_neg (Nat.ne_of_gt hm)] at hhead
  exact ⟨Option.some.inj hhead, rfl⟩

namespace Tree

variable {tokens : Array Token} {t : Tree} {ts us : List Tree} {first count : Nat}

lemma Fits.start_lt_stop (h : Spaced tokens) (ht : t.Fits tokens first count) (hsize : first + count < tokens.size) :
    t.span.start < t.span.stop := by
  obtain ⟨a, ha, hstart⟩ := ht.start_eq
  obtain ⟨b, hb, hstop⟩ := ht.stop_eq
  have hpos := ht.pos
  rw [hstart, hstop]
  rcases Nat.eq_or_lt_of_le (Nat.succ_le_of_lt hpos) with hone | hmore
  · have hsame : first + count - 1 = first := by omega
    rw [hsame, ha] at hb
    obtain rfl := Option.some.inj hb
    exact h.start_lt_stop ha (by omega)
  · have hle := h.stop_le_start ha hb (by omega)
    exact ((h.start_lt_stop ha (by omega)).trans_le hle).trans (h.start_lt_stop hb (by omega))

lemma stop_le_of_mem (h : Spaced tokens) (ht : t ∈ ts) (hfit : ∃ i n, t.Fits tokens i n)
    (hleaves : forestLeaves ts = List.range' first count) {token : Token}
    (htok : tokens[first + count]? = some token) (hsize : first + count < tokens.size) :
    t.span.start < t.span.stop ∧ t.span.stop ≤ token.span.start := by
  obtain ⟨i, n, hfit⟩ := hfit
  obtain ⟨last, hlast, hstop⟩ := hfit.stop_eq
  have hpos := hfit.pos
  have hmem : i + n - 1 ∈ t.leaves := by
    rw [hfit.leaves_eq, List.mem_range'_1]
    omega
  have hin := leaves_subset ht hmem
  rw [hleaves, List.mem_range'_1] at hin
  exact ⟨hfit.start_lt_stop h (by omega), hstop ▸ h.stop_le_start hlast htok hin.2⟩

lemma forest_fits (h : Spaced tokens) (hts : ∀ t ∈ ts, ∃ first count, t.Fits tokens first count)
    (hleaves : forestLeaves ts = List.range' first count) (hsize : first + count < tokens.size) (hne : ts ≠ []) :
    ts.Pairwise (fun c d => c.span.start < c.span.stop ∧ c.span.stop ≤ d.span.start) ∧
      ∃ a b, tokens[first]? = some a ∧ tokens[first + count - 1]? = some b ∧ 0 < count ∧
        spanOf (ts.map part) = ⟨a.span.start, b.span.stop⟩ := by
  -- Spans are merged from the left, so the last tree is the one to split off.
  induction ts using List.reverseRecOn generalizing count with
  | nil => exact absurd rfl hne
  | append_singleton us t ih =>
    rw [forestLeaves_append, forestLeaves_singleton] at hleaves
    obtain ⟨k, hk, hus, ht⟩ := List.range'_eq_append_iff.mp hleaves.symm
    rw [Nat.mul_one] at ht
    rw [List.forall_mem_append] at hts
    obtain ⟨hfits, htfits⟩ := hts
    obtain ⟨i, n, htree⟩ := htfits t (List.mem_singleton_self t)
    obtain ⟨rfl, rfl⟩ := range'_inj (htree.leaves_eq.symm.trans ht) htree.pos
    obtain ⟨c, hc, hstart⟩ := htree.start_eq
    obtain ⟨b, hb, hstop⟩ := htree.stop_eq
    have hpos := htree.pos
    have hlast : first + k + (count - k) - 1 = first + count - 1 := by omega
    rw [hlast] at hb
    have hbefore : ∀ u ∈ us, u.span.start < u.span.stop ∧ u.span.stop ≤ t.span.start :=
      fun u hu => hstart ▸ stop_le_of_mem h hu (hfits u hu) hus hc (by omega)
    rw [List.pairwise_append, List.map_append, List.map_singleton]
    by_cases hnil : us = []
    · subst hnil
      rw [forestLeaves] at hus
      obtain rfl : k = 0 := List.range'_eq_nil_iff.mp hus.symm
      refine ⟨⟨.nil, List.pairwise_singleton _ _, nofun⟩, c, b, hc, hb, Nat.lt_of_lt_of_le hpos (Nat.sub_le _ _), ?_⟩
      rw [List.map_nil, List.nil_append, spanOf, List.foldl_nil, part_span, ← hstart, ← hstop]
    · obtain ⟨hpairs, a, d, ha, hd, hkpos, hspan⟩ := ih hfits hus (by omega) hnil
      refine ⟨⟨hpairs, List.pairwise_singleton _ _, fun u hu v hv => ?_⟩, a, b, ha, hb, by omega, ?_⟩
      · obtain rfl := List.mem_singleton.mp hv
        exact hbefore u hu
      · rw [spanOf_concat (by simpa using hnil), part_span, hspan, Span.merge_of_le, hstop]
        · rw [hstart]
          exact (h.start_lt_stop ha (by omega)).le.trans (h.stop_le_start ha hc (by omega))
        · rw [hstop]
          exact h.stop_le_stop hd hb (by omega) (by omega)

end Tree

section Paths

open Search

variable {R : Reader} {L : Parser Token Tree Context FrontError Unit} {prefers : List String} {g : Grammar}
  {p q : Path Tree Context}

structure Reader.Lays (R : Reader) (L : Parser Token Tree Context FrontError Unit) (g : Grammar)
    (p : Path Tree Context) : Prop where
  stands : ∃ symbols, L.Stands R.tokens g (fun _ _ => True) p symbols
  leaves_eq : Tree.forestLeaves p.values.reverse = List.range p.position
  inPlace : ∀ t ∈ p.values, t.Exact R.tokens

namespace Reader

lemma lays_start (hne : 0 < R.tokens.size) : R.Lays L g (L.start ()).path :=
  ⟨⟨[], Parser.stands_start hne ()⟩, rfl, nofun⟩

lemma exact_leaf {i : Nat} {token : Token} (htok : R.tokens[i]? = some token) :
    (Tree.leaf i token.span).Exact R.tokens := by
  intro s hs
  obtain rfl := List.mem_singleton.mp hs
  exact ⟨i, 1, Nat.one_pos, rfl, ⟨token, htok, rfl⟩, ⟨token, htok, rfl⟩, .nil⟩

lemma exact_node (hS : Spaced R.tokens) {children : List Tree} (hc : ∀ t ∈ children, t.Exact R.tokens)
    (hne : children ≠ []) {first count : Nat} (hleaves : Tree.forestLeaves children = List.range' first count)
    (hsize : first + count < R.tokens.size) (production : Nat) (annotations : Annotations) :
    (Tree.node production (spanOf (children.map Tree.part)) annotations children).Exact R.tokens := by
  intro s hs
  rw [Tree.subtrees, List.mem_cons, Tree.mem_forestSubtrees] at hs
  rcases hs with rfl | ⟨t, ht, hs⟩
  · obtain ⟨hapart, a, b, ha, hb, hpos, hspan⟩ := Tree.forest_fits hS (fun t ht => (hc t ht).fits) hleaves hsize hne
    refine ⟨first, count, hpos, by rwa [Tree.leaves], ⟨a, ha, ?_⟩, ⟨b, hb, ?_⟩, hapart⟩
    · rw [Tree.span, hspan]
    · rw [Tree.span, hspan]
  · exact hc t ht s hs

lemma leaves_take (n : Nat) (h : Tree.forestLeaves p.values.reverse = List.range p.position) :
    ∃ k ≤ p.position, Tree.forestLeaves (p.values.take n).reverse = List.range' k (p.position - k) := by
  rw [reverse_split n p.values, Tree.forestLeaves_append] at h
  obtain ⟨k, hk, _, hrun⟩ := List.range'_eq_append_iff.mp (List.range_eq_range' ▸ h.symm)
  rw [Nat.zero_add, Nat.mul_one] at hrun
  exact ⟨k, hk, hrun⟩

variable (hC : L.Constructed prefers g) (hB : R.Builds L.builder)

include hB in
lemma leaves_movesTo (h : Tree.forestLeaves p.values.reverse = List.range p.position)
    (hm : L.MovesTo R.tokens p q) : Tree.forestLeaves q.values.reverse = List.range q.position := by
  obtain ⟨token, actions, action, _, _, _, _, hm⟩ := hm
  cases action with
  | shift target =>
    obtain ⟨_, context, value, hb, rfl⟩ := Parser.shift_next hm
    rw [hB.shift_eq] at hb
    cases hb
    rw [List.reverse_cons, Tree.forestLeaves_append, h, Tree.forestLeaves_singleton, List.range_succ]
    rfl
  | reduce index =>
    obtain ⟨production, _, _, context, value, _, _, _, _, hb, rfl⟩ := Parser.reduce_next hm
    obtain ⟨annotations, _, hmade⟩ := hB.reduce_ok hb
    obtain ⟨rfl, rfl⟩ := Prod.mk.inj hmade
    rw [reverse_split production.rhs.length p.values, Tree.forestLeaves_append] at h
    rw [List.reverse_cons, Tree.forestLeaves_append, Tree.forestLeaves_singleton, ← h, Tree.leaves]
  | accept => exact absurd hm Parser.accept_ne_next

include hC in
lemma gathered_ne_nil (hright : ∀ production ∈ g.productions, production.rhs ≠ []) {index : Nat}
    {production : Production} (hprod : L.table.productions[index]? = some production)
    (hle : production.rhs.length ≤ p.values.length) : (p.values.take production.rhs.length).reverse ≠ [] := by
  rw [hC.productions_eq] at hprod
  refine List.ne_nil_of_length_pos ?_
  rw [List.length_reverse, List.length_take_of_le hle]
  exact List.length_pos_iff.mpr (hright production (Array.mem_of_getElem? hprod))

include hC hB

lemma Lays.movesTo (hright : ∀ production ∈ g.productions, production.rhs ≠ []) (hS : Spaced R.tokens)
    (h : R.Lays L g p) (hm : L.MovesTo R.tokens p q) : R.Lays L g q := by
  have hstands := Parser.Stands.movesTo hC (Builder.keeps_any _ R.tokens _) h.stands hm
  have hleaves := leaves_movesTo hB h.leaves_eq hm
  obtain ⟨symbols, hp⟩ := h.stands
  obtain ⟨token, actions, action, _, _, hc, ha, hm⟩ := hm
  cases action with
  | shift target =>
    obtain ⟨_, _, _, _, htok, _, _⟩ := hp.mem_cell hC hc ha
    obtain ⟨_, context, value, hb, rfl⟩ := Parser.shift_next hm
    rw [hB.shift_eq] at hb
    cases hb
    exact ⟨hstands, hleaves, List.forall_mem_cons.mpr ⟨exact_leaf htok, h.inPlace⟩⟩
  | reduce index =>
    obtain ⟨production, _, _, context, value, hprod, _, hle, _, hb, rfl⟩ := Parser.reduce_next hm
    obtain ⟨annotations, _, hmade⟩ := hB.reduce_ok hb
    obtain ⟨rfl, rfl⟩ := Prod.mk.inj hmade
    obtain ⟨k, hk, hrun⟩ := leaves_take production.rhs.length h.leaves_eq
    refine ⟨hstands, hleaves, List.forall_mem_cons.mpr ⟨?_, fun t ht => h.inPlace t (List.mem_of_mem_drop ht)⟩⟩
    refine exact_node hS (fun t ht => ?_) (gathered_ne_nil hC hright hprod hle) hrun ?_ _ _
    · exact h.inPlace t (List.mem_of_mem_take (List.mem_reverse.mp ht))
    · rw [Nat.add_sub_cancel' hk]
      exact hp.position_lt
  | accept => exact absurd hm Parser.accept_ne_next

lemma exact_of_explores (hright : ∀ production ∈ g.productions, production.rhs ≠ []) (hS : Spaced R.tokens)
    (hstart : ∀ production ∈ g.productions, Symbol.nonterm 0 ∉ production.rhs)
    (he : EndsOnce L.builder.terminal g.endTerminal R.tokens) {es : List (Ending Tree FrontError)}
    (hes : L.Explores R.tokens () (L.start ()).path 0 () es) :
    ∀ t ∈ accepted es, t.leaves = List.range (R.tokens.size - 1) ∧ t.Exact R.tokens := by
  refine hes.accepted_invariant (fun p q hp hm => hp.movesTo hC hB hright hS hm) ?_ (lays_start he.nonempty)
  intro p token actions t values hp hc ha hvalues
  -- An accepting path stands before the end mark, with one tree on its stack.
  obtain ⟨symbols, hstands⟩ := hp.stands
  obtain ⟨_, value, _, _, hone, _⟩ := hstands.accept hC hstart hc ha
  obtain ⟨htok, hend⟩ := hstands.accept_position hC hc ha
  have hlast := (he.end_iff _ _ htok).mp hend
  have hleaves := hp.leaves_eq
  rw [hone] at hvalues
  cases hvalues
  rw [hone, List.reverse_singleton, Tree.forestLeaves_singleton] at hleaves
  refine ⟨?_, hp.inPlace t (hone ▸ List.mem_singleton_self t)⟩
  rw [hleaves, ← hlast, Nat.add_sub_cancel]

end Reader

end Paths

/-- The table is made for a grammar that has something on each right side, but never the start
symbol, and only the end mark stands for the end. -/
structure Vocabulary.Tight (V : Vocabulary) (prefers : List String) (g : Grammar) : Prop where
  table_eq : V.table = (LR.Construction.ofGrammar prefers g).table
  numbered : g.WellNumbered
  rhs_ne_nil : ∀ p ∈ g.productions, p.rhs ≠ []
  isolated : ∀ p ∈ g.productions, Symbol.nonterm 0 ∉ p.rhs
  end_iff : ∀ kind, V.terminal? kind = some g.endTerminal ↔ kind = .endMark

lemma kind_endMark : ∀ kind ∈ TokenKind.all, kind.terminal = Grammar.endName → kind = .endMark := by decide +kernel

lemma terminalOf_end_iff {T : Table} (hend : T.terminals[T.endMark]? = some Grammar.endName) (kind : TokenKind) :
    Vocabulary.terminalOf T kind = some T.endMark ↔ kind = .endMark := by
  rw [Vocabulary.terminalOf]
  split
  · rename_i hkind
    exact iff_of_true rfl hkind
  · rename_i hkind
    refine iff_of_false (fun hfind => hkind ?_) hkind
    rw [Table.terminal?, Array.findIdx?_eq_some_iff_getElem] at hfind
    obtain ⟨hlt, hname, _⟩ := hfind
    rw [Array.getElem?_eq_getElem hlt] at hend
    refine kind_endMark kind (List.mem_of_getElem? kind.all_rank) ?_
    rw [← eq_of_beq hname, Option.some.inj hend]

lemma Vocabulary.Standard.tight {V : Vocabulary} {g : Grammar} (h : V.Standard g) : V.Tight preferShift g where
  table_eq := h.table_eq
  numbered := h.numbered
  rhs_ne_nil _ hp := h.rhs_ne_nil hp
  isolated := h.isolated
  end_iff kind := by
    have hmark : V.terminal? .endMark = some g.endTerminal := by
      rw [ofTable_terminal? h.table]
      rfl
    have hend : (Grammar.terminalNames Rules.rules)[g.endTerminal]? = some Grammar.endName := h.terminal_name hmark
    rw [ofTable_terminal? h.table]
    refine terminalOf_end_iff (T := (LR.Construction.ofGrammar preferShift g).table) ?_ kind
    change g.terminals[g.endTerminal]? = _
    rw [Grammar.ofRules_terminals h.grammar_eq, List.getElem?_toArray, hend]

namespace FrontEnd

lemma forest_ok {E : FrontEnd} {source : List UInt8} {F : Forest} (h : E.forest source = .ok F) :
    ∃ list, tokenize source = .ok list ∧ F.tokens = list.toArray ∧ E.parseTokens F.tokens = .ok (F.trees, F.stats) := by
  rw [forest] at h
  split at h
  · cases h
  · rename_i list hlist
    obtain ⟨⟨trees, stats⟩, hp, h⟩ := Grammar.ok_of_bind h
    cases h
    exact ⟨list, hlist, rfl, hp⟩

lemma forest_exact {E : FrontEnd} {prefers : List String} {g : Grammar} (hV : E.vocabulary.Tight prefers g)
    {source : List UInt8} {F : Forest} (hF : E.forest source = .ok F) :
    ∀ t ∈ F.trees, t.leaves = List.range (F.tokens.size - 1) ∧ t.Exact F.tokens := by
  obtain ⟨list, hlist, htokens, hp⟩ := forest_ok hF
  have hlaid := tokenize_laid hlist
  obtain ⟨es, hes, hfound⟩ := reads_of_parseTokens hp
  have hends : EndsOnce (E.treeParser F.tokens).builder.terminal g.endTerminal F.tokens := by
    rw [htokens]
    refine ⟨hlaid.pos, fun i token htok => (hV.end_iff token.kind).trans ?_⟩
    rw [List.getElem?_toArray] at htok
    exact hlaid.endMark_iff htok
  rw [← hfound]
  exact Reader.exact_of_explores (R := E.reader F.tokens) ⟨hV.table_eq, hV.numbered⟩ (Reader.builds_tree _)
    hV.rhs_ne_nil (htokens ▸ hlaid.spaced) hV.isolated hends hes

/-- The trees of a text of C, as of any text that is read with a table of this form, have the tokens
before the end mark as their leaves, each once and in order. The leaves of each subtree are a
run of tokens, which its span covers, and the spans of its children lie behind each other. -/
theorem forest_spans : (∀ V, standard = some V → ∃ prefers g, V.Tight prefers g) ∧
    ∀ (E : FrontEnd) prefers g, E.vocabulary.Tight prefers g → ∀ source F, E.forest source = .ok F →
      ∀ t ∈ F.trees, t.leaves = List.range (F.tokens.size - 1) ∧
        ∀ s ∈ t.subtrees, ∃ first count, s.Fits F.tokens first count := by
  refine ⟨fun V hV => ?_, fun E prefers g hV source F hF => forest_exact hV hF⟩
  obtain ⟨g, hg⟩ := standard_eq hV
  exact ⟨preferShift, g, hg.tight⟩

def pairGrammar : Grammar where
  terminals := #["identifier", "end"]
  nonterminals := #["Start", "S"]
  productions := #[⟨0, "start", 0, 1, [.nonterm 1]⟩, ⟨1, "s1", 1, 1, [.term 0, .term 0]⟩]

def pairFrontEnd : FrontEnd where
  vocabulary.table :=
    { version := Table.formatVersion
      terminals := pairGrammar.terminals
      nonterminals := pairGrammar.nonterminals
      productions := pairGrammar.productions
      endMark := 1
      actions := #[#[(0, [.shift 2])], #[(1, [.accept])], #[(0, [.shift 3])], #[(1, [.reduce 1])]]
      gotos := #[#[(1, 1)], #[], #[], #[]] }
  vocabulary.terminals := #[some 1, some 0]
  vocabulary.roles := #[.other, .other]
  vocabulary.categories := #[.other, .other]

lemma pair_terminal {kind : TokenKind} {t : Nat} : pairFrontEnd.vocabulary.terminal? kind = some t ↔
    kind = .endMark ∧ t = 1 ∨ kind = .identifier ∧ t = 0 := by
  change #[some 1, some 0].getD kind.rank none = some t ↔ _
  have hlarge (n : Nat) : #[some 1, some 0].getD (n + 2) none = none := rfl
  cases kind with
  | keyword k => simp [TokenKind.rank, Nat.add_comm 6, hlarge (k.ctorIdx + 4)]
  | punctuator p => simp [TokenKind.rank, Nat.add_comm 41, hlarge (p.ctorIdx + 39)]
  | _ => simp [TokenKind.rank, eq_comm]

lemma pair_tight : pairFrontEnd.vocabulary.Tight [] pairGrammar where
  table_eq := by decide +kernel
  numbered := by
    have hrules : Grammar.ofRules [⟨1, none, "S", [.term "identifier", .term "identifier"]⟩] = .ok pairGrammar := by
      decide +kernel
    exact Grammar.ofRules_wellNumbered hrules
  rhs_ne_nil := by decide
  isolated := by decide
  end_iff kind := by
    rw [pair_terminal]
    simp [pairGrammar, Grammar.endTerminal]

theorem forest_spans_pair : ∃ F t, pairFrontEnd.forest [97, 32, 98] = .ok F ∧ F.trees = [t] ∧ t.leaves = [0, 1] ∧
    ∀ s ∈ t.subtrees, ∃ first count, s.Fits F.tokens first count := by
  let tokens : Array Token := #[{ kind := .identifier, text := "a", span := ⟨⟨1, 1⟩, ⟨1, 2⟩⟩ },
    { kind := .identifier, text := "b", span := ⟨⟨1, 3⟩, ⟨1, 4⟩⟩ }, .endAt ⟨1, 4⟩]
  have htokens : tokenize [97, 32, 98] = .ok tokens.toList := by decide +kernel
  have hfound : (pairFrontEnd.search tokens).result = .ok [2] := by decide +kernel
  have hF : pairFrontEnd.forest [97, 32, 98] =
      .ok ⟨tokens, [(pairFrontEnd.search tokens).store.tree 2], (pairFrontEnd.search tokens).stats⟩ := by
    rw [forest, htokens]
    dsimp only
    rw [parseTokens, hfound]
    rfl
  obtain ⟨hleaves, hfits⟩ := forest_spans.2 _ _ _ pair_tight _ _ hF _ (List.mem_singleton_self _)
  exact ⟨_, _, hF, rfl, hleaves, hfits⟩

end FrontEnd

end Ramify.C
