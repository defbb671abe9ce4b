import Ramify.Proofs.C.ElseAttachment
import Ramify.Proofs.LR.BitCharts
import Ramify.Proofs.Parse.SpareRule

/-! The rules of C with numbers for names, for the kernel to compute with. They are the numbered grammar of C,
and of this grammar a chart is checked: there is no conflict without the name of a type, but that of an `if`
without `else` in front of `else`. -/

namespace Ramify.C

open Bits LR LR.BitChart

def distinctCodes (codes : List Nat) : List Nat :=
  (codes.foldl (fun seen c => bif listed c seen then seen else c :: seen) []).reverse

lemma listed_nameCode (names : List String) (name : String) :
    listed (nameCode name) (names.map nameCode) = names.contains name := by
  rw [Bool.eq_iff_iff, listed_iff, List.contains_iff_mem]
  exact List.mem_map_of_injective fun _ _ => nameCode_inj

lemma map_distinct (names : List String) : (Grammar.distinct names).map nameCode = distinctCodes (names.map nameCode) := by
  have hfold : ∀ seen : List String,
      (names.foldl (fun seen n => if seen.contains n then seen else n :: seen) seen).map nameCode =
        (names.map nameCode).foldl (fun seen c => bif listed c seen then seen else c :: seen) (seen.map nameCode) := by
    induction names with
    | nil => exact fun _ => rfl
    | cons n names ih =>
      intro seen
      rw [List.foldl_cons, ih, List.map_cons, List.foldl_cons, listed_nameCode, Bool.cond_eq_ite]
      split <;> rfl
  rw [Grammar.distinct, List.map_reverse, hfold, distinctCodes, List.map_nil]

lemma find_nameCode (names : List String) (name : String) :
    find (nameCode name) (names.map nameCode) = names.idxOf name := by
  rw [find_eq]
  induction names with
  | nil => rfl
  | cons n names ih =>
    have hbeq : (nameCode n == nameCode name) = (n == name) := by
      rw [Bool.eq_iff_iff, beq_iff_eq, beq_iff_eq]
      exact ⟨nameCode_inj, congrArg nameCode⟩
    rw [List.map_cons, List.idxOf_cons, List.idxOf_cons, hbeq, ih]

namespace Rules

def nonterminalCodes : List Nat :=
  distinctCodes (nameCode Grammar.startName :: rules.flatMap fun r => (Grammar.Rule.nonterminals r).map nameCode)

def terminalCodes : List Nat :=
  distinctCodes ((rules.flatMap fun r => (Grammar.Rule.terminals r).map nameCode) ++ [nameCode Grammar.endName])

def number : NamedSymbol → Nat
  | .nonterm name => find (nameCode name) nonterminalCodes
  | .term name => nonterminalCodes.length + find (nameCode name) terminalCodes

def coded : NumberedGrammar where
  rules := (⟨0, [number (n "TranslationUnit")]⟩ ::
    rules.map fun r => ⟨number (n r.left), r.right.map number⟩).toArray
  nonterminals := nonterminalCodes.length
  symbolCount := nonterminalCodes.length + terminalCodes.length

lemma nonterminalCodes_eq : (Grammar.nonterminalNames rules).map nameCode = nonterminalCodes := by
  rw [Grammar.nonterminalNames, map_distinct, List.map_cons, List.map_flatMap, nonterminalCodes]

lemma terminalCodes_eq : (Grammar.terminalNames rules).map nameCode = terminalCodes := by
  rw [Grammar.terminalNames, map_distinct, List.map_append, List.map_flatMap, List.map_singleton, terminalCodes]

def place (f : Rule → Bool) : Nat := rules.findIdx f + 1

lemma place_ne_zero (f : Rule → Bool) : place f ≠ 0 := Nat.succ_ne_zero (rules.findIdx f)

lemma rules_place {f : Rule → Bool} (h : ∃ r ∈ rules, f r = true) :
    ∃ i r, place f = i + 1 ∧ rules[i]? = some r ∧ f r = true := by
  have hlt := List.findIdx_lt_length_of_exists h
  exact ⟨_, _, rfl, List.getElem?_eq_getElem hlt, List.findIdx_getElem⟩

def ifThen : Nat := place (·.label == some "ifThen")

def typedefName : Nat := place (·.label == some "typedefName")

/-- An identifier can be a name in an expression or the name of a type, and it is not known which. What follows
an expression is told from what follows the target of an assignment or a label where these begin. -/
def exempt : Exempt where
  spare := typedefName
  loose := (ifThen, number (t "else"))
  returns := [place (·.label == some "primaryIdentifier"), place (·.left == "CastExpression")]

def estimate : Estimate := .ofMarks coded [number (n "AssignmentExpression"), number (n "LabeledStatement")]

lemma check_coded : check coded estimate exempt = true := by decide +kernel

end Rules

namespace Vocabulary.Standard

open Rules

variable {V : Vocabulary} {g : Grammar} (h : V.Standard g)

include h

lemma nonterminals_size : g.nonterminals.size = nonterminalCodes.length := by
  rw [Grammar.ofRules_nonterminals h.grammar_eq, List.size_toArray, ← nonterminalCodes_eq, List.length_map]

lemma terminals_size : g.terminals.size = terminalCodes.length := by
  rw [Grammar.ofRules_terminals h.grammar_eq, List.size_toArray, ← terminalCodes_eq, List.length_map]

lemma code_eq (x : NamedSymbol) : code g x = number x := by
  rw [code, Grammar.number, Grammar.numberOf]
  cases x with
  | nonterm name =>
    rw [Grammar.numbered, NumberedGrammar.symbolNumber, number, ← nonterminalCodes_eq, find_nameCode]
  | term name =>
    rw [Grammar.numbered, NumberedGrammar.symbolNumber, number, ← terminalCodes_eq, find_nameCode, h.nonterminals_size]

lemma rule_zero : (NumberedGrammar.ofGrammar g).rules[0]? = some ⟨0, [number (n "TranslationUnit")]⟩ := by
  obtain ⟨start, first, hstart, hfirst, hlhs, hrhs, _⟩ := h.numbered.start
  rw [Grammar.rules_getElem? hstart, hlhs, hrhs, List.map_singleton, h.first_eq hfirst, ← h.code_eq]
  rfl

lemma rule_succ {i : Nat} {r : Rule} (hr : rules[i]? = some r) :
    (NumberedGrammar.ofGrammar g).rules[i + 1]? = some ⟨number (n r.left), r.right.map number⟩ := by
  rw [h.rules_getElem? hr, h.code_eq, List.map_congr_left fun x _ => h.code_eq x]

lemma ofGrammar_eq : NumberedGrammar.ofGrammar g = coded := by
  have hrules : (NumberedGrammar.ofGrammar g).rules = coded.rules := by
    refine Array.toList_inj.mp (List.ext_getElem? fun i => ?_)
    rw [Array.getElem?_toList, coded]
    dsimp only
    cases i with
    | zero => rw [h.rule_zero, List.getElem?_cons_zero]
    | succ i =>
      rw [List.getElem?_cons_succ, List.getElem?_map]
      cases hr : rules[i]? with
      | some r => rw [h.rule_succ hr, Option.map_some]
      | none =>
        rw [Option.map_none]
        refine Option.eq_none_iff_forall_ne_some.mpr fun rule hrule => ?_
        obtain ⟨p, hp, _⟩ := Grammar.exists_production hrule
        obtain ⟨r, hr', _⟩ := h.exists_rule hp
        rw [hr] at hr'
        cases hr'
  have hsize : (NumberedGrammar.ofGrammar g).symbolCount = coded.symbolCount :=
    congrArg₂ (· + ·) h.nonterminals_size h.terminals_size
  calc NumberedGrammar.ofGrammar g
      = ⟨(NumberedGrammar.ofGrammar g).rules, g.nonterminals.size, (NumberedGrammar.ofGrammar g).symbolCount⟩ := rfl
    _ = coded := by rw [hrules, h.nonterminals_size, hsize, coded]

lemma exists_place {f : Rule → Bool} (hf : ∃ r ∈ rules, f r = true) : ∃ p r, g.productions[place f]? = some p ∧
    f r = true ∧ r ∈ rules ∧ p.rhs = r.right.map (Grammar.numberOf rules) ∧ ∀ l, r.label = some l → p.label = l := by
  obtain ⟨i, r, hi, hr, hfr⟩ := rules_place hf
  obtain ⟨p, hp, _, hrhs, hlabel⟩ := Grammar.ofRules_production h.grammar_eq hr
  exact ⟨p, r, hi ▸ hp, hfr, List.mem_of_getElem? hr, hrhs, hlabel⟩

lemma ifThen_notMem {s u : Nat} (hu : g.nonterminals.size + u = number (t "else")) :
    Construction.completing ifThen ∉ V.table.actionsAt s u := by
  obtain ⟨short, long, e, hd, he, _, hlabel⟩ := h.dangling
  obtain rfl : u = e := by
    rw [← h.code_eq, code, he] at hu
    exact Nat.add_left_cancel hu
  have hsome : ∃ r ∈ rules, (r.label == some "ifThen") = true := by
    obtain ⟨r, hr, hl, _⟩ := ifThen_rule
    exact ⟨r, hr, beq_iff_eq.mpr hl⟩
  obtain ⟨p, r, hp, hr, _, _, hl⟩ := h.exists_place hsome
  obtain rfl := h.eq_of_label (Array.mem_of_getElem? hp) hd.short_mem ((hl _ (beq_iff_eq.mp hr)).trans hlabel.symm)
  obtain ⟨q, hq⟩ := Array.mem_iff_getElem?.mp hd.long_mem
  have hnamed : (Grammar.terminalNames rules)[u]? = some "else" := by
    obtain ⟨_, _, _, _, r', hr', _, _, hright⟩ := ifThen_rule
    have hmem : t "else" ∈ r'.right := hright ▸ List.mem_append_right _ List.mem_cons_self
    rw [← Symbol.term.inj he]
    exact List.getElem?_idxOf (Grammar.named_right hr' hmem)
  have helse : g.terminals[u]? = some "else" := by
    rw [Grammar.ofRules_terminals h.grammar_eq, List.getElem?_toArray, hnamed]
  rw [h.table_eq, ifThen, Construction.completing_of_ne (place_ne_zero _)]
  exact Construction.reduce_notMem_actionsAt h.numbered (Grammar.ofRules_terminals_nodup h.grammar_eq) hp hq hd.lhs_eq
    hd.rhs_eq helse List.mem_cons_self s

lemma covers : (chart coded estimate).Covers (NumberedGrammar.ofGrammar g) := by
  have hw := NumberedGrammar.ofGrammar_wellFormed h.numbered
  rw [h.ofGrammar_eq] at hw ⊢
  exact covers_of_check hw check_coded

lemma settles : (chart coded estimate).Settles (NumberedGrammar.ofGrammar g) typedefName
    (fun p a => p = ifThen ∧ a = number (t "else")) (· ∈ exempt.returns) := by
  have hw := NumberedGrammar.ofGrammar_wellFormed h.numbered
  rw [h.ofGrammar_eq] at hw ⊢
  exact settles_of_check hw check_coded

end Vocabulary.Standard

end Ramify.C
