import Ramify.Proofs.LR.ValidItems
import Ramify.Proofs.Parse.Tree

namespace Ramify

namespace ParseTree

open LR

variable {g : Grammar}

lemma forestLeaves_leaf {τ : Type} (w : List τ) : forestLeaves (w.map leaf) = w := by
  induction w with
  | nil => rfl
  | cons t w ih => rw [List.map_cons, forestLeaves, leaves, ih, List.singleton_append]

lemma forall₂_append_left {α β : Type} {R : α → β → Prop} {as as' : List α} {bs : List β}
    (h : List.Forall₂ R (as ++ as') bs) :
    ∃ front back, List.Forall₂ R as front ∧ List.Forall₂ R as' back ∧ bs = front ++ back := by
  have hfront := List.forall₂_take as.length h
  have hback := List.forall₂_drop as.length h
  rw [List.take_left] at hfront
  rw [List.drop_left] at hback
  exact ⟨_, _, hfront, hback, (List.take_append_drop as.length bs).symm⟩

lemma exists_forest_of_rewrites (h : g.WellNumbered) {u v w : List Nat}
    (hr : (NumberedGrammar.ofGrammar g).Rewrites u v)
    (hv : ∀ ss : List Symbol, (∀ s ∈ ss, s.InRange g.nonterminals.size) → ss.map g.number = v →
      ∃ ts, List.Forall₂ (Derives some g.productions) ss ts ∧ forestLeaves ts = w) :
    ∀ ss : List Symbol, (∀ s ∈ ss, s.InRange g.nonterminals.size) → ss.map g.number = u →
      ∃ ts, List.Forall₂ (Derives some g.productions) ss ts ∧ forestLeaves ts = w := by
  obtain ⟨u, v, hr⟩ := hr
  obtain ⟨p, hp, rfl⟩ := Array.mem_map.mp hr
  intro ss hss hmap
  obtain ⟨front, rest, rfl, rfl, hrest⟩ := List.map_eq_append_iff.mp hmap
  obtain ⟨x, back, rfl, hx, rfl⟩ := List.map_eq_cons_iff.mp hrest
  obtain rfl : x = .nonterm p.lhs := by
    refine Grammar.number_inj (hss x (by simp)) (fun i hi => ?_) hx
    exact Symbol.nonterm.inj hi ▸ h.lhs_lt p hp
  have hin : ∀ s ∈ front ++ (p.rhs ++ back), s.InRange g.nonterminals.size := by
    intro s hs
    rcases List.mem_append.mp hs with hs | hs
    · exact hss s (List.mem_append_left _ hs)
    · rcases List.mem_append.mp hs with hs | hs
      · exact h.rhs_inRange hp s hs
      · exact hss s (List.mem_append_right _ (List.mem_cons_of_mem _ hs))
  obtain ⟨ts, hts, hw⟩ := hv _ hin (by rw [List.map_append, List.map_append]; rfl)
  -- The trees of the right side become the children of one node.
  obtain ⟨ts₁, ts₂, h₁, h₂, rfl⟩ := forall₂_append_left hts
  obtain ⟨children, ts₃, hc, h₃, rfl⟩ := forall₂_append_left h₂
  refine ⟨ts₁ ++ .node p children :: ts₃, List.rel_append h₁ (.cons (.node hp hc) h₃), ?_⟩
  rw [← hw, forestLeaves_append, forestLeaves_append, forestLeaves_append, forestLeaves, leaves]

lemma exists_forest (h : g.WellNumbered) {ss : List Symbol} {w : List Nat}
    (hss : ∀ s ∈ ss, s.InRange g.nonterminals.size)
    (hd : (NumberedGrammar.ofGrammar g).Derives (ss.map g.number) (w.map (g.nonterminals.size + ·))) :
    ∃ ts, List.Forall₂ (Derives some g.productions) ss ts ∧ forestLeaves ts = w := by
  refine hd.backward (P := fun u => ∀ ss : List Symbol, (∀ s ∈ ss, s.InRange g.nonterminals.size) →
    ss.map g.number = u → ∃ ts, List.Forall₂ (Derives some g.productions) ss ts ∧ forestLeaves ts = w)
    (fun u v hr hv => exists_forest_of_rewrites h hr hv) (fun ss hss hmap => ?_) ss hss rfl
  have hterms : ss.map g.number = (w.map Symbol.term).map g.number := by
    rw [hmap, List.map_map]
    rfl
  have hin : ∀ s ∈ w.map Symbol.term, s.InRange g.nonterminals.size := by
    rintro s hs i rfl
    obtain ⟨_, _, he⟩ := List.mem_map.mp hs
    cases he
  obtain rfl := Grammar.map_number_inj hss hin hterms
  refine ⟨w.map leaf, ?_, forestLeaves_leaf w⟩
  rw [List.forall₂_map_left_iff, List.forall₂_map_right_iff, List.forall₂_same]
  exact fun t _ => .leaf rfl

end ParseTree

namespace Grammar

open LR

variable (g : Grammar)

def Sentence (w : List Nat) : Prop :=
  ∃ first tree, g.productions[1]? = some first ∧
    ParseTree.Derives some g.productions (.nonterm first.lhs) tree ∧ tree.leaves = w

/-- Tokens with which some sentence, followed by the end of the input, begins. -/
def BeginsSentence {τ : Type} (terminal : τ → Option Nat) (tokens : List τ) : Prop :=
  ∃ w, g.Sentence w ∧ tokens.map terminal <+: (w ++ [g.endTerminal]).map some

variable {g}

lemma WellNumbered.sentence_of_derives (h : g.WellNumbered) {w : List Nat}
    (hd : (NumberedGrammar.ofGrammar g).Derives ((NumberedGrammar.ofGrammar g).right 0)
      (w.map (g.nonterminals.size + ·))) : g.Sentence w := by
  obtain ⟨start, first, hstart, hfirst, _, hrhs, _⟩ := h.start
  have hmem := Array.mem_of_getElem? hstart
  rw [NumberedGrammar.right_eq (rules_getElem? hstart)] at hd
  obtain ⟨ts, hts, hw⟩ := ParseTree.exists_forest h (h.rhs_inRange hmem) hd
  rw [hrhs] at hts
  obtain ⟨tree, rest, htree, hrest, rfl⟩ := List.forall₂_cons_left_iff.mp hts
  obtain rfl := List.forall₂_nil_left_iff.mp hrest
  rw [ParseTree.forestLeaves_singleton] at hw
  exact ⟨first, tree, hfirst, htree, hw⟩

lemma productive_of_trees (h : ∀ n < g.nonterminals.size,
    ∃ tree, ParseTree.Derives some g.productions (.nonterm n) tree) :
    (NumberedGrammar.ofGrammar g).Productive := by
  intro n hn
  obtain ⟨tree, htree⟩ := h n hn
  refine ⟨_, fun t ht => ?_, ParseTree.derives_leaves htree⟩
  obtain ⟨token, _, rfl⟩ := List.mem_map.mp ht
  exact Nat.le_add_right _ _

end Grammar

end Ramify
