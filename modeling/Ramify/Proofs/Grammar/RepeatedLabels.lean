import Ramify.Proofs.Grammar.Names
import Ramify.Proofs.Grammar.WrittenRules

namespace Ramify.Grammar

variable {rules : List Rule} {text : String} {line : ℕ} {label : String}

def Unreserved (r : Rule) : Prop := r.left ≠ startName ∧ .term endName ∉ r.right

def labelBehind (earlier : List Rule) (r : Rule) : String :=
  r.label.getD (defaultLabel r.left (countLeft r.left earlier + 1))

/-- The rule at a place bears a label that has been given before, and it is the first rule to be refused. -/
structure Repeats (earlier rules : List Rule) (labels : List String) (line : ℕ) (label : String) (k : ℕ) : Prop where
  rule : ∃ r, rules[k]? = some r ∧ r.line = line
  label_eq : (labelsAfter earlier rules)[k]? = some label
  mem : label ∈ labels ++ (labelsAfter earlier rules).take k
  nodup : (labels ++ (labelsAfter earlier rules).take k).Nodup
  unreserved : ∀ q ∈ rules.take (k + 1), Unreserved q

section Steps

variable {earlier : List Rule} {labels : List String} {r : Rule} {k : ℕ}

lemma repeats_zero : Repeats earlier (r :: rules) labels line label 0 ↔
    Unreserved r ∧ r.line = line ∧ labelBehind earlier r = label ∧ label ∈ labels ∧ labels.Nodup := by
  constructor
  · rintro ⟨⟨_, ⟨⟩, hline⟩, hlabel, hmem, hnodup, hunreserved⟩
    rw [List.take_zero, List.append_nil] at hmem hnodup
    exact ⟨hunreserved r List.mem_cons_self, hline, Option.some.inj hlabel, hmem, hnodup⟩
  · rintro ⟨hunreserved, hline, rfl, hmem, hnodup⟩
    refine ⟨⟨r, rfl, hline⟩, rfl, List.mem_append_left _ hmem, ?_, List.forall_mem_singleton.mpr hunreserved⟩
    rwa [List.take_zero, List.append_nil]

lemma repeats_succ : Repeats earlier (r :: rules) labels line label (k + 1) ↔
    Unreserved r ∧ Repeats (r :: earlier) rules (labelBehind earlier r :: labels) line label k := by
  have hperm (given : String) (more : List String) : (labels ++ given :: more).Perm (given :: labels ++ more) :=
    List.perm_middle
  constructor
  · rintro ⟨hrule, hlabel, hmem, hnodup, hunreserved⟩
    rw [List.take_succ_cons, List.forall_mem_cons] at hunreserved
    exact ⟨hunreserved.1, hrule, hlabel, (hperm _ _).mem_iff.mp hmem, (hperm _ _).nodup_iff.mp hnodup, hunreserved.2⟩
  · rintro ⟨hunreserved, hrule, hlabel, hmem, hnodup, hmore⟩
    exact ⟨hrule, hlabel, (hperm _ _).mem_iff.mpr hmem, (hperm _ _).nodup_iff.mpr hnodup,
      List.forall_mem_cons.mpr ⟨hunreserved, hmore⟩⟩

lemma labelled_cons_eq_duplicate : labelled earlier labels (r :: rules) = .error (.duplicateLabel line label) ↔
    Unreserved r ∧ (labelBehind earlier r ∈ labels ∧ r.line = line ∧ labelBehind earlier r = label ∨
      labelBehind earlier r ∉ labels ∧
        labelled (r :: earlier) (labelBehind earlier r :: labels) rules = .error (.duplicateLabel line label)) := by
  rw [labelled]
  simp only [check_eq_error, bind_eq_error, reduceCtorEq, and_false, false_or, pure, Except.pure, exists_false,
    or_false, List.contains_iff_mem, GrammarError.duplicateLabel.injEq, labelBehind, Unreserved, Ne, and_assoc]

end Steps

lemma labelled_eq_duplicate {earlier : List Rule} {labels : List String} (hlabels : labels.Nodup) :
    labelled earlier labels rules = .error (.duplicateLabel line label) ↔
      ∃ k, Repeats earlier rules labels line label k := by
  induction rules generalizing earlier labels with
  | nil =>
    rw [labelled]
    constructor
    · rintro ⟨⟩
    · rintro ⟨k, ⟨_, hrule, _⟩, _⟩
      cases hrule
  | cons r rules ih =>
    rw [← Nat.or_exists_add_one, labelled_cons_eq_duplicate]
    simp only [repeats_zero, repeats_succ, exists_and_left, ← and_or_left]
    refine and_congr_right fun _ => ?_
    by_cases hgiven : labelBehind earlier r ∈ labels
    -- Nothing behind this rule comes into question, since its label would then stand twice among those given.
    · have hlater : ¬ ∃ k, Repeats (r :: earlier) rules (labelBehind earlier r :: labels) line label k := by
        rintro ⟨k, h⟩
        exact (List.nodup_cons.mp h.nodup).1 (List.mem_append_left _ hgiven)
      grind
    · rw [← ih (List.nodup_cons.mpr ⟨hgiven, hlabels⟩)]
      grind

lemma ofRules_eq_duplicate : ofRules rules = .error (.duplicateLabel line label) ↔
    ∃ k, Repeats [] rules [startLabel] line label k := by
  rw [← labelled_eq_duplicate (List.nodup_singleton startLabel)]
  cases rules with
  | nil => constructor <;> rintro ⟨⟩
  | cons first rest =>
    rw [ofRules]
    dsimp only
    simp only [check_eq_error, bind_eq_error, reduceCtorEq, and_false, false_or, pure, Except.pure, exists_false,
      or_false]
    exact and_iff_right_of_imp fun h => (labelled_cons_eq_duplicate.mp h).1.1

lemma rules_ne_duplicate : Grammar.rules text ≠ .error (.duplicateLabel line label) := by
  intro h
  rw [rules_eq_bind] at h
  rcases bind_eq_error.mp h with h | ⟨all, _, h⟩
  · obtain ⟨x, _, hx⟩ := error_of_mapM h
    rw [lexed] at hx
    split at hx <;> cases hx
  · obtain ⟨x, _, hx⟩ := error_of_mapM h
    rw [formed] at hx
    split at hx <;> cases hx

theorem parse_eq_duplicate : parse text = .error (.duplicateLabel line label) ↔
    ∃ rules, Written text rules ∧ ∃ k, Repeats [] rules [startLabel] line label k := by
  simp only [← ofRules_eq_duplicate, ← rules_eq_ok]
  rw [parse, bind_eq_error]
  exact or_iff_right rules_ne_duplicate

end Ramify.Grammar
