import Ramify.Proofs.C.NameCodes
import Ramify.Proofs.Parse.SpelledWords

/-! Sketches of trees of C. Only the tokens and the nodes with several children are noted; the nodes with one child
between them are looked for. What is found is checked by the rules, so nothing depends on how it is
looked for. -/

namespace Ramify.C.Rules

open Grammar

/-- A token, or a node over the last parts. -/
inductive Mark where
  | token
  | node (left : String) (parts : Nat)

def symbolCode : NamedSymbol → Nat
  | .nonterm name => 2 * nameCode name
  | .term name => 2 * nameCode name + 1

def sideCodes : List (Nat × Nat × List Nat) :=
  rules.zipIdx.map fun (r, i) => (i + 1, symbolCode (n r.left), r.right.map symbolCode)

def chainCodes : List (Nat × Nat × Nat) := sideCodes.filterMap fun (p, left, right) =>
  match right with
  | [x] => some (p, left, x)
  | _ => none

def climb (chains : List (Nat × Nat × Nat)) (target : Nat) : Nat → Nat → Option (List Deed)
  | 0, _ => none
  | fuel + 1, x =>
    bif x.beq target then some []
    else chains.findSome? fun (p, left, y) =>
      bif x.beq y then (climb chains target fuel left).map (.reduce p :: ·) else none

def gather (chains : List (Nat × Nat × Nat)) : List (Nat × List Deed) → List Nat → Option (List Deed)
  | [], [] => some []
  | (x, deeds) :: parts, y :: right =>
    match climb chains y chains.length x with
    | some chain => (gather chains parts right).map (deeds ++ chain ++ ·)
    | none => none
  | _, _ => none

def grow (sides : List (Nat × Nat × List Nat)) (chains : List (Nat × Nat × Nat)) (target : Nat) :
    List Mark → List Nat → List (Nat × List Deed) → Option (List Deed)
  | [], [], [part] => gather chains [part] [target]
  | .token :: marks, x :: word, parts => grow sides chains target marks word ((x, [.shift]) :: parts)
  | .node left k :: marks, word, parts =>
    let found := sides.findSome? fun (p, y, right) =>
      bif y.beq (symbolCode (n left)) then (gather chains (parts.take k).reverse right).map (· ++ [.reduce p]) else none
    match found with
    | some deeds => grow sides chains target marks word ((symbolCode (n left), deeds) :: parts.drop k)
    | none => none
  | _, _, _ => none

def sketched (word : List String) (marks : List Mark) : Option (List Deed) :=
  (grow sideCodes chainCodes (symbolCode (n "TranslationUnit")) marks (word.map fun name => symbolCode (t name)) []).filter
    fun deeds => Spells rules word deeds "TranslationUnit"

section Sketched

variable {τ : Type} {g : Grammar} {terminal : τ → Option Nat} {name : τ → String} {word : List τ} {last : τ}
  {input : Array τ} {marks : List Mark} {deeds : List Deed}

lemma exists_parse_of_sketch (hg : grammar = .ok g) (htells : Tells rules terminal name)
    (hinput : input.toList = word ++ [last]) (hlast : terminal last = some g.endTerminal)
    (h : sketched (word.map name) marks = some deeds) : EndsOnce terminal g.endTerminal input ∧
      ∃ tree : ParseTree τ, tree.IsParse terminal g input ∧ tree.deeds = deeds := by
  have hspells : Spells rules (word.map name) deeds "TranslationUnit" :=
    of_decide_eq_true (Option.filter_eq_some_iff.mp h).2
  have hfirst : rules[0]? = some ⟨1, none, "TranslationUnit", [n "ExternalDeclaration"]⟩ := rfl
  exact ⟨hspells.endsOnce hg htells hinput hlast, hspells.exists_parse hg htells hinput hfirst rfl⟩

end Sketched

end Ramify.C.Rules
