import Ramify.LR.Item
import Mathlib

namespace Ramify.LR.NumberedGrammar

/-- There is a rule, every number that occurs is in range, and there is a terminal. -/
structure WellFormed (G : NumberedGrammar) : Prop where
  rules_pos : 0 < G.rules.size
  left_lt : ∀ r ∈ G.rules, r.left < G.nonterminals
  right_lt : ∀ r ∈ G.rules, ∀ s ∈ r.right, s < G.symbolCount
  nonterminals_lt : G.nonterminals < G.symbolCount

/-- Every number that occurs is in range; there need be neither a rule nor a terminal. -/
structure InRange (G : NumberedGrammar) : Prop where
  left_lt : ∀ r ∈ G.rules, r.left < G.nonterminals
  right_lt : ∀ r ∈ G.rules, ∀ s ∈ r.right, s < G.symbolCount
  nonterminals_le : G.nonterminals ≤ G.symbolCount

lemma WellFormed.inRange {G : NumberedGrammar} (h : G.WellFormed) : G.InRange :=
  ⟨h.left_lt, h.right_lt, h.nonterminals_lt.le⟩

variable (G : NumberedGrammar)

inductive Rewrites : List Nat → List Nat → Prop
  | intro (u v : List Nat) {r : NumberedRule} : r ∈ G.rules →
      Rewrites (u ++ r.left :: v) (u ++ (r.right ++ v))

def Derives : List Nat → List Nat → Prop := Relation.ReflTransGen G.Rewrites

def Begins (seq : List Nat) (t : Nat) : Prop :=
  G.nonterminals ≤ t ∧ ∃ rest, G.Derives seq (t :: rest)

variable {G}

lemma Rewrites.append {u v : List Nat} (h : G.Rewrites u v) (p q : List Nat) :
    G.Rewrites (p ++ u ++ q) (p ++ v ++ q) := by
  obtain ⟨u, v, hr⟩ := h
  simpa using Rewrites.intro (p ++ u) (v ++ q) hr

lemma Derives.refl (u : List Nat) : G.Derives u u := Relation.ReflTransGen.refl

lemma Derives.trans {u v w : List Nat} (h : G.Derives u v) (h' : G.Derives v w) : G.Derives u w :=
  Relation.ReflTransGen.trans h h'

lemma Derives.in_context {u v : List Nat} (h : G.Derives u v) (p q : List Nat) :
    G.Derives (p ++ u ++ q) (p ++ v ++ q) := by
  induction h with
  | refl => exact Derives.refl _
  | tail _ hs ih => exact ih.tail (hs.append p q)

lemma Derives.append {u v u' v' : List Nat} (h : G.Derives u v) (h' : G.Derives u' v') :
    G.Derives (u ++ u') (v ++ v') := by
  have hl := h.in_context [] u'
  have hr := h'.in_context v []
  simp only [List.nil_append, List.append_nil] at hl hr
  exact hl.trans hr

lemma Derives.of_rule {r : NumberedRule} (hr : r ∈ G.rules) : G.Derives [r.left] r.right := by
  have hh := Rewrites.intro [] [] hr
  simp only [List.nil_append, List.append_nil] at hh
  exact Relation.ReflTransGen.single hh

lemma derives_nil_of_forall {u : List Nat} (h : ∀ s ∈ u, G.Derives [s] []) : G.Derives u [] := by
  induction u with
  | nil => exact Derives.refl _
  | cons s u ih =>
    exact (h s (by simp)).append (ih fun t ht => h t (by simp [ht]))

lemma Begins.append {u : List Nat} {t : Nat} (h : G.Begins u t) (v : List Nat) :
    G.Begins (u ++ v) t := by
  obtain ⟨ht, rest, hd⟩ := h
  exact ⟨ht, rest ++ v, hd.append (Derives.refl v)⟩

lemma Begins.prepend {u v : List Nat} {t : Nat} (hu : G.Derives u []) (h : G.Begins v t) :
    G.Begins (u ++ v) t := by
  obtain ⟨ht, rest, hd⟩ := h
  exact ⟨ht, rest, hu.append hd⟩

lemma Begins.of_derives {u v : List Nat} {t : Nat} (hu : G.Derives u v) (h : G.Begins v t) :
    G.Begins u t := by
  obtain ⟨ht, rest, hd⟩ := h
  exact ⟨ht, rest, hu.trans hd⟩

lemma Derives.backward {P : List Nat → Prop} (h : ∀ u v, G.Rewrites u v → P v → P u)
    {u v : List Nat} (hd : G.Derives u v) (hv : P v) : P u := by
  induction hd with
  | refl => exact hv
  | tail _ hs ih => exact ih (h _ _ hs hv)

lemma Derives.symbols_lt (hin : G.InRange) {u v : List Nat} (h : G.Derives u v)
    (hu : ∀ s ∈ u, s < G.symbolCount) : ∀ s ∈ v, s < G.symbolCount := by
  induction h with
  | refl => exact hu
  | tail _ hs ih =>
    obtain ⟨u, v, hr⟩ := hs
    intro s hs
    have hh := hin.right_lt _ hr s
    have hi := ih s
    simp only [List.mem_append, List.mem_cons] at hs hi
    tauto

lemma Begins.lt (hin : G.InRange) {seq : List Nat} (hseq : ∀ s ∈ seq, s < G.symbolCount) {t : Nat}
    (h : G.Begins seq t) : t < G.symbolCount := by
  obtain ⟨_, rest, hd⟩ := h
  exact hd.symbols_lt hin hseq t (by simp)

end Ramify.LR.NumberedGrammar
