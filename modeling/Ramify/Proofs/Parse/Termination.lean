import Ramify.Proofs.Parse.Stacks
import Ramify.Proofs.Search.Termination

namespace Ramify

def Grammar.Descends (g : Grammar) (rank : Symbol → Nat) : Prop :=
  ∀ p ∈ g.productions, p.rhs ≠ [] ∧ ∀ x, p.rhs = [x] → rank (.nonterm p.lhs) < rank x

namespace Search.Parser

variable {τ ν κ ε δ : Type} {P : Parser τ ν κ ε δ} {tokens : Array τ} {prefers : List String} {g : Grammar}
  {Good : Symbol → ν → Prop} {p q : Path ν κ} {symbols : List Symbol} {rank : Symbol → Nat}

def weight (tokens : Array τ) (rank : Symbol → Nat) (p : Path ν κ) (symbols : List Symbol) : Nat ×ₗ Nat ×ₗ Nat :=
  toLex (tokens.size - p.position, toLex (symbols.length, (symbols.head?.map rank).getD 0))

lemma weight_lt_of_shift {symbols' : List Symbol} (hq : q.position = p.position + 1)
    (hlast : p.position < tokens.size - 1) : weight tokens rank q symbols' < weight tokens rank p symbols := by
  refine Prod.Lex.toLex_lt_toLex.mpr (Or.inl ?_)
  dsimp only
  omega

lemma weight_lt_of_reduce (hdescends : g.Descends rank) {production : Production}
    (hmem : production ∈ g.productions) (hq : q.position = p.position)
    (hrhs : (symbols.take production.rhs.length).reverse = production.rhs) :
    weight tokens rank q (.nonterm production.lhs :: symbols.drop production.rhs.length) <
      weight tokens rank p symbols := by
  obtain ⟨hne, hunit⟩ := hdescends production hmem
  refine Prod.Lex.toLex_lt_toLex.mpr (Or.inr ⟨congrArg (tokens.size - ·) hq, Prod.Lex.toLex_lt_toLex.mpr ?_⟩)
  have hle : production.rhs.length ≤ symbols.length := by
    have hlength := congrArg List.length hrhs
    rw [List.length_reverse, List.length_take] at hlength
    omega
  rcases hcase : production.rhs with _ | ⟨x, _ | ⟨y, rest⟩⟩
  · exact absurd hcase hne
  · -- A single symbol gives way to one of lower rank.
    rw [hcase] at hrhs hle
    obtain ⟨top, below, rfl⟩ := List.exists_cons_of_length_pos hle
    obtain rfl : top = x := List.singleton_inj.mp hrhs
    exact Or.inr ⟨rfl, hunit top hcase⟩
  · rw [hcase] at hle
    refine Or.inl ?_
    rw [List.length_cons, List.length_drop]
    simp only [List.length_cons] at hle ⊢
    omega

section Constructed

variable (h : P.Constructed prefers g) (hB : P.builder.Keeps tokens g.productions Good)
  (hdescends : g.Descends rank)

include h hB hdescends

lemma Stands.weight_lt (hp : P.Stands tokens g Good p symbols) (hm : P.MovesTo tokens p q) :
    ∃ symbols', P.Stands tokens g Good q symbols' ∧
      weight tokens rank q symbols' < weight tokens rank p symbols := by
  obtain ⟨token, actions, action, store, store', hc, ha, hm⟩ := hm
  cases action with
  | shift target =>
    obtain ⟨t, _, hq⟩ := hp.shift h hB hc ha hm
    obtain ⟨hlast, _, _, _, rfl⟩ := shift_next hm
    exact ⟨_, hq, weight_lt_of_shift rfl hlast⟩
  | reduce index =>
    obtain ⟨production, hmem, hrhs, hq⟩ := hp.reduce h hB hc ha hm
    obtain ⟨_, _, _, _, _, _, _, _, _, _, rfl⟩ := reduce_next hm
    exact ⟨_, hq, weight_lt_of_reduce hdescends hmem rfl hrhs⟩
  | accept => exact absurd hm accept_ne_next

lemma Stands.finite (hp : P.Stands tokens g Good p symbols) : P.Finite tokens p := by
  induction hw : weight tokens rank p symbols using WellFoundedLT.induction generalizing p symbols with
  | ind w ih =>
    refine Acc.intro p fun q hm => ?_
    obtain ⟨symbols', hq, hlt⟩ := hp.weight_lt h hB hdescends hm
    exact ih _ (hw ▸ hlt) hq rfl

lemma Constructed.terminates (hsize : 0 < tokens.size) (store : δ) : P.Ends tokens (P.start store) := by
  refine ends_of_finite fun p hp => ?_
  obtain rfl := List.mem_singleton.mp hp
  exact (stands_start hsize store).finite h hB hdescends

end Constructed

end Search.Parser

end Ramify
