import Ramify.Proofs.LR.LookaheadClosure

namespace Ramify.LR

def ItemSet.single (i : Item) (a : Nat) : ItemSet := ⟨{i}, {(i, a)}⟩

namespace NumberedGrammar

variable {G : NumberedGrammar}

lemma Closure.exists_single {I : Set Item} {i : Item} (h : G.Closure I i) :
    ∃ k ∈ I, G.Closure {k} i := by
  induction h with
  | base hi => exact ⟨_, hi, .base rfl⟩
  | initial _ hr hn ih =>
    obtain ⟨k, hk, hi⟩ := ih
    exact ⟨k, hk, .initial hi hr hn⟩

lemma Looks.closure {I : ItemSet} (hI : ∀ p ∈ I.looks, p.1 ∈ I.items) {i : Item} {a : Nat}
    (h : G.Looks I i a) : G.Closure I.items i := by
  induction h with
  | base h => exact .base (hI _ h)
  | generated hi hr hn _ => exact .initial hi hr hn
  | passed _ hr hn _ ih => exact .initial ih hr hn

lemma Looks.mono {I J : ItemSet} (hi : I.items ⊆ J.items) (hl : I.looks ⊆ J.looks) {i : Item} {a : Nat}
    (h : G.Looks I i a) : G.Looks J i a := by
  induction h with
  | base h => exact .base (hl h)
  | generated h hr hn hb => exact .generated (h.mono hi) hr hn hb
  | passed _ hr hn hd ih => exact .passed ih hr hn hd

def Generates (G : NumberedGrammar) (k i : Item) (a : Nat) : Prop :=
  a ≠ G.symbolCount ∧ G.Looks (.single k G.symbolCount) i a

def Passes (G : NumberedGrammar) (k i : Item) : Prop :=
  G.Looks (.single k G.symbolCount) i G.symbolCount

lemma Looks.of_single (hw : G.WellFormed) {I : ItemSet} {k i : Item} (hk : k ∈ I.items) {b : Nat}
    (h : G.Looks (.single k G.symbolCount) i b) :
    (b ≠ G.symbolCount → G.Looks I i b) ∧
      (b = G.symbolCount → ∀ a, (k, a) ∈ I.looks → G.Looks I i a) := by
  induction h with
  | base h =>
    obtain ⟨rfl, rfl⟩ := Prod.mk.inj h
    exact ⟨fun hne => absurd rfl hne, fun _ a ha => .base ha⟩
  | generated hi hr hn hb =>
    have hlt := hb.lt hw.inRange (beyond_lt hw.inRange _)
    have hi' := hi.mono (Set.singleton_subset_iff.mpr hk)
    exact ⟨fun _ => .generated hi' hr hn hb, fun he => absurd he hlt.ne⟩
  | passed _ hr hn hd ih =>
    exact ⟨fun hne => .passed (ih.1 hne) hr hn hd, fun he a ha => .passed (ih.2 he a ha) hr hn hd⟩

lemma Generates.lt (hw : G.WellFormed) {k i : Item} {a : Nat} (h : G.Generates k i a) : a < G.symbolCount := by
  obtain ⟨hne, hl⟩ := h
  induction hl with
  | base h => exact absurd (Prod.mk.inj h).2 hne
  | generated _ _ _ hb => exact hb.lt hw.inRange (beyond_lt hw.inRange _)
  | passed _ _ _ _ ih => exact ih hne

lemma Generates.looks (hw : G.WellFormed) {I : ItemSet} {k i : Item} (hk : k ∈ I.items) {a : Nat}
    (h : G.Generates k i a) : G.Looks I i a :=
  (h.2.of_single hw hk).1 h.1

lemma Passes.looks (hw : G.WellFormed) {I : ItemSet} {k i : Item} (hk : k ∈ I.items) {a : Nat}
    (h : G.Passes k i) (ha : (k, a) ∈ I.looks) : G.Looks I i a :=
  (Looks.of_single hw hk h).2 rfl a ha

lemma Looks.exists_single (hw : G.WellFormed) {I : ItemSet} {i : Item} {a : Nat} (h : G.Looks I i a)
    (hI : ∀ p ∈ I.looks, p.1 ∈ I.items) :
    ∃ k ∈ I.items, G.Generates k i a ∨ (k, a) ∈ I.looks ∧ G.Passes k i := by
  induction h with
  | base h => exact ⟨_, hI _ h, Or.inr ⟨h, .base rfl⟩⟩
  | generated hi hr hn hb =>
    obtain ⟨k, hk, hi⟩ := hi.exists_single
    have hlt := hb.lt hw.inRange (beyond_lt hw.inRange _)
    exact ⟨k, hk, Or.inl ⟨hlt.ne, .generated hi hr hn hb⟩⟩
  | passed _ hr hn hd ih =>
    obtain ⟨k, hk, hg | ⟨ha, hp⟩⟩ := ih
    · exact ⟨k, hk, Or.inl ⟨hg.1, .passed hg.2 hr hn hd⟩⟩
    · exact ⟨k, hk, Or.inr ⟨ha, .passed hp hr hn hd⟩⟩

end NumberedGrammar

end Ramify.LR
