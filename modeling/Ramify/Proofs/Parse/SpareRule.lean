import Ramify.Proofs.LR.Charts
import Ramify.Proofs.Parse.Stacks
import Ramify.Proofs.Search.Forks

/-! A rule to spare. Where a chart settles all conflicts but those with one rule, and the builder refuses this
rule on every path, a search finds one value at most. A reduction by the rule is refused at once, and a shift
to a state where nothing but this rule can be reduced is refused behind it. -/

namespace Ramify

namespace LR.Construction

variable {g : Grammar} {s t : Nat} {a : Action}

def completing (p : Nat) : Action := if p = 0 then .accept else .reduce p

lemma completing_of_ne {p : Nat} (h : p ≠ 0) : completing p = .reduce p := if_neg h

lemma exists_complete (hw : (NumberedGrammar.ofGrammar g).WellFormed) (ha : a ∈ allActions g s t) :
    (∃ u, a = .shift u) ∨ ∃ p r, a = completing p ∧ (NumberedGrammar.ofGrammar g).rules[p]? = some r ∧
      (NumberedGrammar.ofGrammar g).Looks (Analysis.kernelSet (NumberedGrammar.ofGrammar g) s) ⟨p, r.right.length⟩
        (g.nonterminals.size + t) := by
  have hrule : ∀ {p b : Nat}, (NumberedGrammar.ofGrammar g).Looks
      (Analysis.kernelSet (NumberedGrammar.ofGrammar g) s) ⟨p, ((NumberedGrammar.ofGrammar g).right p).length⟩ b →
      ∃ r, (NumberedGrammar.ofGrammar g).rules[p]? = some r ∧ (NumberedGrammar.ofGrammar g).right p = r.right := by
    intro p b hl
    have hmem := (NumberedGrammar.mem_closure hw).mp (NumberedGrammar.looks_mem_closure hw hl)
    obtain ⟨hlt, _⟩ := NumberedGrammar.Closure.valid (fun j hj => NumberedGrammar.kernel_valid hw hj) hmem
    exact ⟨_, Array.getElem?_eq_getElem hlt, NumberedGrammar.right_eq (Array.getElem?_eq_getElem hlt)⟩
  cases a with
  | shift u => exact Or.inl ⟨u, rfl⟩
  | reduce p =>
    obtain ⟨hne, hl⟩ := (reduce_mem_allActions hw).mp ha
    obtain ⟨r, hr, hright⟩ := hrule hl
    exact Or.inr ⟨p, r, (completing_of_ne hne).symm, hr, hright ▸ hl⟩
  | accept =>
    obtain ⟨he, hl⟩ := (accept_mem_allActions hw).mp ha
    obtain ⟨r, hr, hright⟩ := hrule hl
    exact Or.inr ⟨0, r, rfl, hr, he.symm ▸ hright ▸ hl⟩

lemma eq_completing_of_kernel (hw : (NumberedGrammar.ofGrammar g).WellFormed) {p : Nat} {r : NumberedRule}
    (hr : (NumberedGrammar.ofGrammar g).rules[p]? = some r)
    (hkernel : ∀ i ∈ (NumberedGrammar.ofGrammar g).collection.kernel s, i = ⟨p, r.right.length⟩)
    (ha : a ∈ allActions g s t) : a = completing p := by
  have hnext : Item.next? (NumberedGrammar.ofGrammar g) ⟨p, r.right.length⟩ = none := by
    rw [Item.next?, NumberedGrammar.right_eq hr]
    exact List.getElem?_eq_none le_rfl
  have hclosure : ∀ i ∈ (NumberedGrammar.ofGrammar g).closure ((NumberedGrammar.ofGrammar g).collection.kernel s),
      i = ⟨p, r.right.length⟩ := by
    intro i hi
    induction (NumberedGrammar.mem_closure hw).mp hi with
    | base hk => exact hkernel _ hk
    | initial hj _ hn ih =>
      rw [ih ((NumberedGrammar.mem_closure hw).mpr hj), hnext] at hn
      cases hn
  obtain ⟨u, rfl⟩ | ⟨q, r', rfl, _, hl⟩ := exists_complete hw ha
  · obtain ⟨i, hi, hn⟩ := NumberedGrammar.exists_item_of_goto? hw (shift_mem_allActions.mp ha)
    rw [hclosure i hi, hnext] at hn
    cases hn
  · rw [(Item.mk.inj (hclosure _ (NumberedGrammar.looks_mem_closure hw hl))).1]

end LR.Construction

namespace Search.Parser

open LR

variable {τ ν κ ε δ φ : Type}

/-- On the paths with a property, which the moves keep, a rule with one symbol on its right side is refused. -/
structure Spares (P : Parser τ ν κ ε δ) (tokens : Array τ) (prefers : List String) (g : Grammar)
    (Good : Symbol → ν → Prop) (spare : Nat) (I : Path ν κ → Prop) : Prop where
  constructed : P.Constructed prefers g
  spare_ne_zero : spare ≠ 0
  spare_rule : ∃ r, (NumberedGrammar.ofGrammar g).rules[spare]? = some r ∧ r.right.length = 1
  keeps : ∀ p q, I p → P.MovesTo tokens p q → I q
  stands : ∀ p, I p → ∃ symbols, P.Stands tokens g Good p symbols
  refuses : ∀ p q token store store', I p → P.move tokens store p token (.reduce spare) ≠ (store', .next q)

namespace Spares

variable {P : Parser τ ν κ ε δ} {tokens : Array τ} {prefers : List String} {g : Grammar} {Good : Symbol → ν → Prop}
  {spare : Nat} {I : Path ν κ → Prop} {p : Path ν κ} {token : τ} {actions : List Action}

section Cell

variable (hP : P.Spares tokens prefers g Good spare I) (hp : I p)

include hP hp

lemma cell_cases (hc : P.cell tokens p = some (token, actions)) : ∃ s states, p.states = s :: states ∧
    (actions = [] ∨ ∃ t, actions = P.table.actionsAt s t ∧ actions.Sublist (Construction.allActions g s t)) := by
  have hw := NumberedGrammar.ofGrammar_wellFormed hP.constructed.numbered
  obtain ⟨symbols, hstands⟩ := hP.stands p hp
  obtain ⟨s, states, hs⟩ := hstands.states_eq
  obtain ⟨_, rfl⟩ := cell_eq_some hs hc
  refine ⟨s, states, hs, (hP.constructed.options_sublist ((hs ▸ hstands.stack).lt_size hw) token).imp_right ?_⟩
  rintro ⟨t, ht, hsub⟩
  refine ⟨t, ?_, hsub⟩
  rw [options, ht]

lemma barren_spare : P.Barren tokens p token (.reduce spare) := by
  intro store store' es hb
  generalize hm : P.move tokens store p token (.reduce spare) = m at hb
  cases hb with
  | next => exact absurd hm (hP.refuses p _ token store _ hp)
  | accepted => cases (accept_accepted hm).1
  | rejected => rfl

lemma barren_shift {s t u : Nat} (hc : P.cell tokens p = some (token, actions)) (ha : .shift u ∈ actions)
    (hall : .shift u ∈ Construction.allActions g s t)
    (honly : ∀ j ∈ (NumberedGrammar.ofGrammar g).closure ((NumberedGrammar.ofGrammar g).collection.kernel s),
      j.next? (NumberedGrammar.ofGrammar g) = some (g.nonterminals.size + t) → j = ⟨spare, 0⟩) :
    P.Barren tokens p token (.shift u) := by
  have hw := NumberedGrammar.ofGrammar_wellFormed hP.constructed.numbered
  obtain ⟨r, hr, hone⟩ := hP.spare_rule
  have hkernel : ∀ i ∈ (NumberedGrammar.ofGrammar g).collection.kernel u, i = ⟨spare, r.right.length⟩ := by
    intro i hi
    rw [(NumberedGrammar.goto?_kernel hw (Construction.shift_mem_allActions.mp hall)).2] at hi
    obtain ⟨j, hj, hn, rfl⟩ := NumberedGrammar.mem_movedOver.mp hi
    rw [honly j hj hn, hone]
    rfl
  intro store store' es hb
  generalize hm : P.move tokens store p token (.shift u) = m at hb
  cases hb with
  | accepted => cases (accept_accepted hm).1
  | rejected => rfl
  | next hq =>
    have hq' := hP.keeps p _ hp ⟨token, actions, _, store, _, hc, ha, hm⟩
    obtain ⟨_, context, value, _, rfl⟩ := shift_next hm
    refine hq.accepted_nil_of_barren fun token' actions' hc' b hb => ?_
    obtain ⟨s', states', hs', hnil | ⟨t', _, hsub⟩⟩ := hP.cell_cases hq' hc'
    · rw [hnil] at hb
      cases hb
    · obtain ⟨rfl, _⟩ := List.cons.inj hs'
      rw [Construction.eq_completing_of_kernel hw hr hkernel (hsub.subset hb),
        Construction.completing_of_ne hP.spare_ne_zero]
      exact hP.barren_spare hq'

end Cell

theorem forks {C : Chart φ} {loose : Nat → Nat → Prop} {returns : Nat → Prop}
    (hP : P.Spares tokens prefers g Good spare I) (hC : C.Covers (NumberedGrammar.ofGrammar g))
    (hS : C.Settles (NumberedGrammar.ofGrammar g) spare loose returns)
    (hloose : ∀ s t p, loose p (g.nonterminals.size + t) → Construction.completing p ∉ P.table.actionsAt s t) :
    P.Forks tokens I := by
  have hw := NumberedGrammar.ofGrammar_wellFormed hP.constructed.numbered
  refine ⟨hP.keeps, fun p token actions hp hc => ?_⟩
  obtain ⟨s, _, _, rfl | ⟨t, hat, hsub⟩⟩ := hP.cell_cases hp hc
  · exact List.Pairwise.nil
  have hspare : Construction.completing spare = .reduce spare :=
    Construction.completing_of_ne hP.spare_ne_zero
  have hbelow : ∀ {i : Item}, (NumberedGrammar.ofGrammar g).Looks
      (Analysis.kernelSet (NumberedGrammar.ofGrammar g) s) i (g.nonterminals.size + t) →
        s < (NumberedGrammar.ofGrammar g).collection.size := fun hl =>
    NumberedGrammar.lt_size_of_mem_closure hw (NumberedGrammar.looks_mem_closure hw hl)
  have hshift : ∀ u q r, .shift u ∈ actions → Construction.completing q ∈ actions →
      (NumberedGrammar.ofGrammar g).rules[q]? = some r → (NumberedGrammar.ofGrammar g).Looks
        (Analysis.kernelSet (NumberedGrammar.ofGrammar g) s) ⟨q, r.right.length⟩ (g.nonterminals.size + t) →
      P.Barren tokens p token (.shift u) ∨ P.Barren tokens p token (Construction.completing q) := by
    intro u q r hu hq hr hl
    by_cases he : q = spare
    · rw [he, hspare]
      exact Or.inr (hP.barren_spare hp)
    · refine Or.inl (hP.barren_shift hp hc hu (hsub.subset hu) fun j hj hn => ?_)
      exact hS.shift_spare hw hC (hbelow hl) he (fun h => hloose s t q h (hat ▸ hq)) (Nat.le_add_right _ _) hr hl hj hn
  refine ((Construction.allActions_nodup hw).sublist hsub).pairwise_of_forall_ne fun a ha b hb hne => ?_
  obtain ⟨u, rfl⟩ | ⟨q, r, rfl, hr, hl⟩ := Construction.exists_complete hw (hsub.subset ha) <;>
    obtain ⟨u', rfl⟩ | ⟨q', r', rfl, hr', hl'⟩ := Construction.exists_complete hw (hsub.subset hb)
  · have hu := Construction.shift_mem_allActions.mp (hsub.subset ha)
    have hu' := Construction.shift_mem_allActions.mp (hsub.subset hb)
    exact absurd (congrArg Action.shift (Option.some.inj (hu.symm.trans hu'))) hne
  · exact hshift u q' r' ha hb hr' hl'
  · exact (hshift u' q r hb ha hr hl).symm
  · by_cases he : q = spare
    · rw [he, hspare]
      exact Or.inl (hP.barren_spare hp)
    by_cases he' : q' = spare
    · rw [he', hspare]
      exact Or.inr (hP.barren_spare hp)
    · exact absurd (congrArg _ (hS.reduction_unique hw hC (hbelow hl) he he' hr hr' hl hl')) hne

end Spares

end Search.Parser

end Ramify
