import Ramify.Proofs.Grammar.Numbering
import Ramify.Search

namespace Ramify

lemma reverse_split {α : Type} (n : Nat) (l : List α) : l.reverse = (l.drop n).reverse ++ (l.take n).reverse := by
  rw [← List.reverse_append, List.take_append_drop]

inductive ParseTree (τ : Type) where
  | leaf (token : τ)
  | node (production : Production) (children : List (ParseTree τ))

namespace ParseTree

variable {τ : Type}

section Equality

variable [DecidableEq τ]

mutual

def decEq : (t u : ParseTree τ) → Decidable (t = u)
  | leaf x, leaf y => decidable_of_iff (x = y) (by rw [leaf.injEq])
  | leaf _, node _ _ => isFalse nofun
  | node _ _, leaf _ => isFalse nofun
  | node p ts, node q us =>
    haveI := forestDecEq ts us
    decidable_of_iff (p = q ∧ ts = us) (by rw [node.injEq])

def forestDecEq : (ts us : List (ParseTree τ)) → Decidable (ts = us)
  | [], [] => isTrue rfl
  | [], _ :: _ => isFalse nofun
  | _ :: _, [] => isFalse nofun
  | t :: ts, u :: us =>
    haveI := decEq t u
    haveI := forestDecEq ts us
    decidable_of_iff (t = u ∧ ts = us) (by rw [List.cons.injEq])

end

instance : DecidableEq (ParseTree τ) := decEq

end Equality

mutual

def leaves : ParseTree τ → List τ
  | leaf token => [token]
  | node _ children => forestLeaves children

def forestLeaves : List (ParseTree τ) → List τ
  | [] => []
  | t :: ts => leaves t ++ forestLeaves ts

end

inductive Derives (terminal : τ → Option Nat) (productions : Array Production) :
    Symbol → ParseTree τ → Prop
  | leaf {token : τ} {t : Nat} : terminal token = some t →
      Derives terminal productions (.term t) (.leaf token)
  | node {p : Production} {children : List (ParseTree τ)} : p ∈ productions →
      List.Forall₂ (Derives terminal productions) p.rhs children →
      Derives terminal productions (.nonterm p.lhs) (.node p children)

/-- A tree of all tokens but the last, whose root is the left side of the first rule. -/
def IsParse (terminal : τ → Option Nat) (g : Grammar) (tokens : Array τ) (tree : ParseTree τ) : Prop :=
  ∃ first, g.productions[1]? = some first ∧
    tree.Derives terminal g.productions (.nonterm first.lhs) ∧ tree.leaves = tokens.toList.dropLast

lemma forestLeaves_append (ts us : List (ParseTree τ)) :
    forestLeaves (ts ++ us) = forestLeaves ts ++ forestLeaves us := by
  induction ts with
  | nil => rfl
  | cons t ts ih => rw [List.cons_append, forestLeaves, ih, forestLeaves, List.append_assoc]

lemma forestLeaves_singleton (t : ParseTree τ) : forestLeaves [t] = leaves t := by
  rw [forestLeaves, forestLeaves, List.append_nil]

section Word

variable {terminal : τ → Option Nat} {g : Grammar}

def tokenNumber (terminal : τ → Option Nat) (g : Grammar) (token : τ) : Nat :=
  g.nonterminals.size + (terminal token).getD 0

open LR

mutual

lemma derives_leaves {s : Symbol} : ∀ {t : ParseTree τ}, Derives terminal g.productions s t →
    (NumberedGrammar.ofGrammar g).Derives [g.number s]
      ((leaves t).map (tokenNumber terminal g))
  | .leaf token, h => by
    cases h with
    | leaf ht =>
      rw [leaves, List.map_singleton, tokenNumber, ht]
      exact NumberedGrammar.Derives.refl _
  | .node p children, h => by
    cases h with
    | node hp hc =>
      have hrule : (⟨p.lhs, p.rhs.map g.number⟩ : NumberedRule) ∈
          (NumberedGrammar.ofGrammar g).rules := Array.mem_map_of_mem hp
      rw [leaves]
      exact (NumberedGrammar.Derives.of_rule hrule).trans (derives_forestLeaves hc)

lemma derives_forestLeaves {ss : List Symbol} : ∀ {ts : List (ParseTree τ)},
    List.Forall₂ (Derives terminal g.productions) ss ts →
    (NumberedGrammar.ofGrammar g).Derives (ss.map g.number)
      ((forestLeaves ts).map (tokenNumber terminal g))
  | [], h => by
    cases h with
    | nil => exact NumberedGrammar.Derives.refl _
  | t :: ts, h => by
    cases h with
    | cons ht hts =>
      rw [forestLeaves, List.map_append, List.map_cons]
      exact (derives_leaves ht).append (derives_forestLeaves hts)

end

mutual

lemma Derives.terminal_isSome {s : Symbol} : ∀ {t : ParseTree τ}, Derives terminal g.productions s t →
    ∀ token ∈ leaves t, ∃ n, terminal token = some n
  | .leaf token, h => by
    cases h with
    | leaf ht =>
      intro token' hmem
      rw [leaves, List.mem_singleton] at hmem
      exact ⟨_, hmem ▸ ht⟩
  | .node p children, h => by
    cases h with
    | node hp hc =>
      rw [leaves]
      exact forest_terminal_isSome hc

lemma forest_terminal_isSome {ss : List Symbol} : ∀ {ts : List (ParseTree τ)},
    List.Forall₂ (Derives terminal g.productions) ss ts → ∀ token ∈ forestLeaves ts, ∃ n, terminal token = some n
  | [], _ => by
    intro token hmem
    rw [forestLeaves] at hmem
    cases hmem
  | t :: ts, h => by
    cases h with
    | cons ht hts =>
      intro token hmem
      rw [forestLeaves, List.mem_append] at hmem
      exact hmem.elim (ht.terminal_isSome token) (forest_terminal_isSome hts token)

end

lemma Derives.inRange (h : g.WellNumbered) {s : Symbol} {t : ParseTree τ}
    (hd : Derives terminal g.productions s t) : s.InRange g.nonterminals.size := by
  cases hd with
  | leaf _ => exact fun i hi => by cases hi
  | node hp _ =>
    intro i hi
    cases hi
    exact h.lhs_lt _ hp

end Word

end ParseTree

namespace Builder

variable {τ ν κ ε δ : Type}

structure BuildsTrees (B : Builder τ (ParseTree τ) κ ε δ) : Prop where
  shift_eq : ∀ {s c token position s' c' v}, B.shift s c token position = (s', .ok (c', v)) → v = .leaf token
  reduce_eq : ∀ {s c p children s' c' v}, B.reduce s c p children = (s', .ok (c', v)) → v = .node p children

structure NeverRejects (B : Builder τ ν κ ε δ) : Prop where
  shift_ok : ∀ s c token position, ∃ s' c' v, B.shift s c token position = (s', .ok (c', v))
  reduce_ok : ∀ s c p children, ∃ s' c' v, B.reduce s c p children = (s', .ok (c', v))

def trees (terminal : τ → Option Nat) (syntaxError : τ → Nat → ε) : Builder τ (ParseTree τ) Unit ε Unit where
  terminal := terminal
  initial := ()
  shift s c token _ := (s, .ok (c, .leaf token))
  reduce s c p children := (s, .ok (c, .node p children))
  syntaxError := syntaxError

lemma buildsTrees_trees (terminal : τ → Option Nat) (syntaxError : τ → Nat → ε) :
    (trees terminal syntaxError).BuildsTrees := by
  refine ⟨fun h => ?_, fun h => ?_⟩ <;> cases h <;> rfl

lemma neverRejects_trees (terminal : τ → Option Nat) (syntaxError : τ → Nat → ε) :
    (trees terminal syntaxError).NeverRejects :=
  ⟨fun s c token _ => ⟨s, c, .leaf token, rfl⟩, fun s c p children => ⟨s, c, .node p children, rfl⟩⟩

end Builder

structure EndsOnce {τ : Type} (terminal : τ → Option Nat) (endMark : Nat) (tokens : Array τ) : Prop where
  nonempty : 0 < tokens.size
  end_iff : ∀ (i : Nat) token, tokens[i]? = some token → (terminal token = some endMark ↔ i + 1 = tokens.size)

end Ramify
