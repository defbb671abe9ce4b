import Ramify.Proofs.Parse.Soundness

namespace Ramify.Search.Parser

open LR

variable {τ ν κ ε δ : Type} {P : Parser τ ν κ ε δ} {tokens : Array τ} {prefers : List String} {g : Grammar}
  {Good : Symbol → ν → Prop} {p : Path ν κ} {symbols : List Symbol} {token : τ} {actions : List Action}

lemma Stands.accept_ne_nil (h : P.Constructed prefers g) (hp : P.Stands tokens g Good p symbols)
    (hc : P.cell tokens p = some (token, actions)) (ha : Action.accept ∈ actions) : p.values ≠ [] := by
  have hw := NumberedGrammar.ofGrammar_wellFormed h.numbered
  obtain ⟨s, states, t, hs, _, _, hmem⟩ := hp.mem_cell h hc ha
  have hl := ((Construction.accept_mem_allActions hw).mp hmem).2
  have hle := ((hs ▸ hp.stack).viable hw (NumberedGrammar.looks_mem_closure hw hl)).1
  obtain ⟨start, first, hstart, _, _, hrhs, _⟩ := h.numbered.start
  rw [NumberedGrammar.right_eq (Grammar.rules_getElem? hstart), hrhs, List.length_map, List.length_map,
    hp.good.length_eq] at hle
  intro hnil
  rw [hnil] at hle
  cases hle

/-- Acceptance is chosen at the last token only, and if the start symbol stands on no right side
the stack then holds one value. -/
theorem parse_accepts {text : String} {options : Options} {K : Construction}
    (hK : construct text options = .ok K) (hT : P.table = K.table)
    (he : EndsOnce P.builder.terminal K.table.endMark tokens) {store : δ} {S : State ν κ ε δ}
    (hS : P.Reaches tokens (P.start store) S) (hc : P.Chooses tokens S token .accept) :
    S.path.position + 1 = tokens.size ∧ S.path.values ≠ [] ∧
      ((∀ p ∈ K.grammar.productions, Symbol.nonterm 0 ∉ p.rhs) → S.path.values.length = 1) := by
  obtain ⟨g, hg, rfl⟩ := construct_ok hK
  have h : P.Constructed options.preferShift g := ⟨hT, hg⟩
  obtain ⟨actions, hcell, hget⟩ := hc
  have ha := List.mem_of_getElem? hget
  obtain ⟨symbols, hp⟩ := Stands.of_reaches h (Builder.keeps_any _ tokens _) he.nonempty hS
  obtain ⟨htok, hend⟩ := hp.accept_position h hcell ha
  refine ⟨(he.end_iff _ _ htok).mp hend, hp.accept_ne_nil h hcell ha, fun hstart => ?_⟩
  obtain ⟨first, value, _, _, hvalues, _⟩ := hp.accept h hstart hcell ha
  rw [hvalues, List.length_singleton]

def twofoldAccepting : State (ParseTree Nat) Unit Unit Unit where
  path := ⟨1, [1, 0], [.node ⟨1, "s1", 1, 1, [.term 0]⟩ [.leaf 0]], ()⟩
  checkpoints := [⟨⟨1, [2, 0], [.leaf 0], ()⟩, 0, 1⟩]
  stats := { steps := 2, shifts := 1, reductions := 1, checkpoints := 1, maxDepth := 1 }
  store := ()

theorem parse_accepts_twofold : twofoldAccepting.path.position + 1 = 2 ∧ twofoldAccepting.path.values.length = 1 := by
  let shifted : State (ParseTree Nat) Unit Unit Unit :=
    { path := ⟨1, [2, 0], [.leaf 0], ()⟩, stats := { steps := 1, shifts := 1 }, store := () }
  have h₁ : twofoldParser.step #[0, 1] (twofoldParser.start ()).counted = (shifted, .proceed) := by decide +kernel
  have h₂ : twofoldParser.step #[0, 1] shifted.counted = (twofoldAccepting, .proceed) := by decide +kernel
  have hc : twofoldParser.Chooses #[0, 1] twofoldAccepting 1 .accept := ⟨[.accept], by decide +kernel, rfl⟩
  have hh := parse_accepts (P := twofoldParser) construct_twofold rfl twofold_ends
    ((Reaches.refl.proceed h₁).proceed h₂) hc
  exact ⟨hh.1, hh.2.2 twofold_isolated⟩

example : (Grammar.parse "S -> a\nS -> b Start").toOption.map (·.productions.map (·.rhs)) =
    some #[[.nonterm 1], [.term 0], [.term 1, .nonterm 0]] := by
  decide +kernel

end Ramify.Search.Parser
