import Ramify.Proofs.LR.CanonicalSets

namespace Ramify.LR

namespace NumberedGrammar

/-- The item with the lookahead is in the classical canonical set of a string of symbols. -/
inductive Valid (G : NumberedGrammar) : List Nat → Item → Nat → Prop
  | start : Valid G [] ⟨0, 0⟩ G.endSymbol
  | moved {g : List Nat} {i : Item} {a x : Nat} : Valid G g i a → i.next? G = some x →
      Valid G (g ++ [x]) i.advance a
  | initial {g : List Nat} {i : Item} {a b n : Nat} {r : NumberedRule} : Valid G g i a →
      G.rules[n]? = some r → i.next? G = some r.left →
      (G.Begins (i.beyond G) b ∨ G.Derives (i.beyond G) [] ∧ b = a) → Valid G g ⟨n, 0⟩ b

def Productive (G : NumberedGrammar) : Prop :=
  ∀ x < G.nonterminals, ∃ word, (∀ t ∈ word, G.nonterminals ≤ t) ∧ G.Derives [x] word

variable {G : NumberedGrammar} {g : List Nat} {i : Item} {a : Nat}

lemma canonical_items_closed (hi : G.Closure (G.canonical g).items i) : i ∈ (G.canonical g).items := by
  cases g using List.reverseRec with
  | nil => exact Closure.of_closure hi
  | append_singleton g x _ =>
    rw [canonical_concat] at hi ⊢
    exact Closure.of_closure hi

lemma Valid.mem_canonical (h : G.Valid g i a) :
    i ∈ (G.canonical g).items ∧ (i, a) ∈ (G.canonical g).looks := by
  induction h with
  | start => exact ⟨.base rfl, .base rfl⟩
  | @moved g i a x _ hn ih =>
    refine ⟨?_, moved_subset_canonical g ih.2 hn⟩
    rw [canonical_concat]
    exact .base ⟨i, ih.1, hn, rfl⟩
  | initial _ hr hn hb ih =>
    refine ⟨canonical_items_closed (.initial (.base ih.1) hr hn), canonical_closed _ ?_⟩
    rcases hb with hb | ⟨hd, rfl⟩
    · exact .generated (.base ih.1) hr hn hb
    · exact .passed (.base ih.2) hr hn hd

lemma Productive.exists_word (h : G.Productive) (seq : List Nat) :
    ∃ word, (∀ t ∈ word, G.nonterminals ≤ t) ∧ G.Derives seq word := by
  induction seq with
  | nil => exact ⟨[], nofun, Derives.refl _⟩
  | cons x seq ih =>
    obtain ⟨word, hword, hd⟩ := ih
    obtain ⟨front, hfront, hx⟩ : ∃ front, (∀ t ∈ front, G.nonterminals ≤ t) ∧ G.Derives [x] front := by
      by_cases hx : x < G.nonterminals
      · exact h x hx
      · refine ⟨[x], fun t ht => ?_, Derives.refl _⟩
        rw [List.mem_singleton.mp ht]
        exact Nat.not_lt.mp hx
    exact ⟨front ++ word, fun t ht => (List.mem_append.mp ht).elim (hfront t) (hword t), hx.append hd⟩

lemma Valid.exists_initial (h : G.Valid g i a) (hG : G.Productive) {n : Nat} {r : NumberedRule}
    (hr : G.rules[n]? = some r) (hn : i.next? G = some r.left) : ∃ b, G.Valid g ⟨n, 0⟩ b := by
  obtain ⟨word, hword, hd⟩ := hG.exists_word (i.beyond G)
  cases word with
  | nil => exact ⟨a, .initial h hr hn (Or.inr ⟨hd, rfl⟩)⟩
  | cons t rest => exact ⟨t, .initial h hr hn (Or.inl ⟨hword t List.mem_cons_self, rest, hd⟩)⟩

lemma Closure.exists_valid (hG : G.Productive) {I : Set Item} (hI : ∀ j ∈ I, ∃ b, G.Valid g j b)
    (h : G.Closure I i) : ∃ b, G.Valid g i b := by
  induction h with
  | base hi => exact hI _ hi
  | initial _ hr hn ih =>
    obtain ⟨b, hb⟩ := ih
    exact hb.exists_initial hG hr hn

lemma Looks.valid (hG : G.Productive) {I : ItemSet} (hI : ∀ j ∈ I.items, ∃ b, G.Valid g j b)
    (hl : ∀ p ∈ I.looks, G.Valid g p.1 p.2) (h : G.Looks I i a) : G.Valid g i a := by
  induction h with
  | base hi => exact hl _ hi
  | generated hi hr hn hb =>
    obtain ⟨b, hv⟩ := hi.exists_valid hG hI
    exact .initial hv hr hn (Or.inl hb)
  | passed _ hr hn hd ih => exact .initial ih hr hn (Or.inr ⟨hd, rfl⟩)

lemma canonical_valid (hG : G.Productive) (g : List Nat) :
    (∀ j ∈ (G.canonical g).items, ∃ b, G.Valid g j b) ∧
      ∀ p ∈ (G.canonical g).looks, G.Valid g p.1 p.2 := by
  induction g using List.reverseRecOn with
  | nil =>
    have hI : ∀ j ∈ (ItemSet.single ⟨0, 0⟩ G.endSymbol).items, ∃ b, G.Valid [] j b := by
      rintro j rfl
      exact ⟨_, .start⟩
    refine ⟨fun j hj => Closure.exists_valid hG hI hj, fun p hp => Looks.valid hG hI ?_ hp⟩
    rintro p rfl
    exact .start
  | append_singleton g x ih =>
    have hI : ∀ j ∈ ((G.canonical g).moved G x).items, ∃ b, G.Valid (g ++ [x]) j b := by
      rintro j ⟨i, hi, hn, rfl⟩
      obtain ⟨b, hb⟩ := ih.1 i hi
      exact ⟨b, .moved hb hn⟩
    rw [canonical_concat]
    refine ⟨fun j hj => Closure.exists_valid hG hI hj, fun p hp => Looks.valid hG hI ?_ hp⟩
    rintro ⟨j, b⟩ ⟨i, hi, hn, rfl⟩
    exact .moved (ih.2 (i, b) hi) hn

lemma canonical_eq_valid (hG : G.Productive) (g : List Nat) :
    G.canonical g = ⟨{i | ∃ a, G.Valid g i a}, {p | G.Valid g p.1 p.2}⟩ := by
  apply ItemSet.ext
  · ext i
    exact ⟨(canonical_valid hG g).1 i, fun ⟨_, h⟩ => h.mem_canonical.1⟩
  · ext p
    exact ⟨(canonical_valid hG g).2 p, fun h => h.mem_canonical.2⟩

end NumberedGrammar

namespace Analysis

variable {G : NumberedGrammar}

/-- The computed lookaheads of an item are those with which it is valid for some string that
leads to the state. -/
theorem mem_closure_iff_valid (hw : G.WellFormed) (hG : G.Productive) {s : Nat} (hs : s < G.collection.size)
    {i : Item} {a : Nat} :
    (∃ la, (i, la) ∈ (ofGrammar G).closure ((kernelLookaheads G).getD s []) ∧ la.testBit a = true) ↔
      ∃ g, G.collection.follow 0 g = some s ∧ G.Valid g i a := by
  have hU := congrArg ItemSet.looks (closure_kernel_eq_union hw hs)
  have hmem : (∃ la, (i, la) ∈ (ofGrammar G).closure ((kernelLookaheads G).getD s []) ∧
      la.testBit a = true) ↔ (i, a) ∈ (ItemSet.union (G.canonicalSets s)).looks := by
    rw [← hU]
    rfl
  rw [hmem]
  constructor
  · rintro ⟨_, ⟨g, hg, rfl⟩, hi⟩
    rw [NumberedGrammar.canonical_eq_valid hG] at hi
    exact ⟨g, hg, hi⟩
  · rintro ⟨g, hg, hv⟩
    exact ⟨_, ⟨g, hg, rfl⟩, hv.mem_canonical.2⟩

end Analysis

end Ramify.LR
