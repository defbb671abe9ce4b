import Ramify.Proofs.C.StandardGrammar

namespace Ramify.C.Rules

section Names

lemma mem_of_lookup {α : Type} {l : List (String × α)} {key : String} {a : α} (h : l.lookup key = some a) :
    (key, a) ∈ l := by
  obtain ⟨l₁, l₂, rfl, _⟩ := List.lookup_eq_some_iff.mp h
  exact List.mem_append_right _ List.mem_cons_self

lemma left_of_category {left : String} {c : Category} (h : categoryOf left = c) (hc : c ≠ .other) :
    (left, c) ∈ Category.names := by
  rw [categoryOf] at h
  cases hl : Category.names.lookup left with
  | none =>
    rw [hl] at h
    exact absurd h.symm hc
  | some c' =>
    rw [hl] at h
    exact mem_of_lookup (h ▸ hl)

lemma label_of_role {r : Rule} {role : Role} (h : roleOf r = role) (hr : role ≠ .other) :
    ∃ l, r.label = some l ∧ (l, role) ∈ Role.labels := by
  rw [roleOf] at h
  cases hl : r.label with
  | none =>
    rw [hl] at h
    exact absurd h.symm hr
  | some l =>
    refine ⟨l, rfl, ?_⟩
    rw [hl, Option.bind_some] at h
    cases hk : Role.labels.lookup l with
    | none =>
      rw [hk] at h
      exact absurd h.symm hr
    | some role' =>
      rw [hk] at h
      exact mem_of_lookup (h ▸ hk)

lemma name_of_category {left : String} {c : Category} {name : String} (h : categoryOf left = c) (hc : c ≠ .other)
    (hname : ∀ e ∈ Category.names, e.2 = c → e.1 = name) : left = name :=
  hname _ (left_of_category h hc) rfl

end Names

def opens : NamedSymbol → Bool
  | .term name => name == "for"
  | .nonterm name => name == "BlockOpen"

def loopLabels : List (Option String) := [some "forExpr", some "forExprStep", some "forDecl", some "forDeclStep"]

lemma scoping : ∀ r ∈ rules,
    ((r.left = "FunctionDefinition" → r.right = [n "DeclarationSpecifiers", n "Declarator", n "CompoundStatement"]) ∧
      (r.left = "CompoundStatement" →
        r.right = [n "BlockOpen", t "rightBrace"] ∨ r.right = [n "BlockOpen", n "BlockItemList", t "rightBrace"]) ∧
      (r.left = "BlockOpen" → r.right = [t "leftBrace"])) ∧
    ((r.label ∈ loopLabels → r.left = "IterationStatement" ∧ r.right.head? = some (t "for") ∧
        r.right.tail.all (fun x => !opens x) = true) ∧
      (r.label ∉ loopLabels → r.left ≠ "CompoundStatement" → r.right.all (fun x => !opens x) = true)) ∧
    (roleOf r = .typedefStorage ↔ r.right = [t "typedef"]) := by
  decide +kernel

lemma storage_iff : ∀ r ∈ rules, roleOf r = .typedefStorage ↔ r.right = [t "typedef"] :=
  fun r hr => (scoping r hr).2.2

lemma category_compound : categoryOf "CompoundStatement" = .compoundStatement := rfl

lemma loopLabel_iff {r : Rule} : r.label ∈ loopLabels ↔ roleOf r = .forLoop := by
  constructor
  · intro h
    simp only [loopLabels, List.mem_cons, List.not_mem_nil, or_false] at h
    rcases h with h | h | h | h <;> rw [roleOf, h] <;> rfl
  · intro h
    obtain ⟨l, hl, hmem⟩ := label_of_role h (by decide)
    rw [hl]
    simpa [Role.labels, loopLabels] using hmem

section Kinds

variable {kind : TokenKind}

lemma terminals : ∀ kind ∈ TokenKind.all, (kind.terminal = "for" → kind = .keyword .for_) ∧
    (kind.terminal = "leftBrace" → kind = .punctuator .leftBrace) ∧
    (kind.terminal = "identifier" → kind = .identifier) ∧
    (kind.terminal = "typedef" → kind = .keyword .typedef) ∧
    (kind.terminal = "else" → kind = .keyword .else_) := by decide +kernel

lemma terminals_of (kind : TokenKind) : (kind.terminal = "for" → kind = .keyword .for_) ∧
    (kind.terminal = "leftBrace" → kind = .punctuator .leftBrace) ∧
    (kind.terminal = "identifier" → kind = .identifier) ∧
    (kind.terminal = "typedef" → kind = .keyword .typedef) ∧
    (kind.terminal = "else" → kind = .keyword .else_) :=
  terminals kind (List.mem_of_getElem? (TokenKind.all_rank kind))

lemma kind_for (h : kind.terminal = "for") : kind = .keyword .for_ := (terminals_of kind).1 h

lemma kind_leftBrace (h : kind.terminal = "leftBrace") : kind = .punctuator .leftBrace := (terminals_of kind).2.1 h

lemma kind_identifier (h : kind.terminal = "identifier") : kind = .identifier := (terminals_of kind).2.2.1 h

lemma kind_typedef (h : kind.terminal = "typedef") : kind = .keyword .typedef := (terminals_of kind).2.2.2.1 h

lemma kind_else (h : kind.terminal = "else") : kind = .keyword .else_ := (terminals_of kind).2.2.2.2 h

end Kinds

section Rule

variable {r : Rule} (hr : r ∈ rules)

include hr

lemma functionDefinition_right (h : categoryOf r.left = .functionDefinition) :
    r.right = [n "DeclarationSpecifiers", n "Declarator", n "CompoundStatement"] :=
  (scoping r hr).1.1 (name_of_category h nofun (by simp [Category.names]))

lemma compound_right (h : categoryOf r.left = .compoundStatement) :
    r.right = [n "BlockOpen", t "rightBrace"] ∨ r.right = [n "BlockOpen", n "BlockItemList", t "rightBrace"] :=
  (scoping r hr).1.2.1 (name_of_category h nofun (by simp [Category.names]))

lemma blockOpen_right (h : categoryOf r.left = .blockOpen) : r.left = "BlockOpen" ∧ r.right = [t "leftBrace"] := by
  have hleft : r.left = "BlockOpen" := name_of_category h nofun (by simp [Category.names])
  exact ⟨hleft, (scoping r hr).1.2.2 hleft⟩

lemma loop_right (h : roleOf r = .forLoop) : categoryOf r.left = .iterationStatement ∧
    ∃ rest, r.right = t "for" :: rest ∧ ∀ x ∈ rest, opens x = false := by
  obtain ⟨hleft, hhead, hrest⟩ := (scoping r hr).2.1.1 (loopLabel_iff.mpr h)
  refine ⟨hleft ▸ rfl, r.right.tail, (List.cons_head?_tail hhead).symm, ?_⟩
  simpa using hrest

lemma opens_right (hblock : categoryOf r.left ≠ .compoundStatement) (hrole : roleOf r ≠ .forLoop) :
    ∀ x ∈ r.right, opens x = false := by
  have hright := (scoping r hr).2.1.2 (fun h => hrole (loopLabel_iff.mp h))
    fun h => hblock (h ▸ category_compound)
  simpa using hright

end Rule

def topLevel : NamedSymbol → Bool
  | .term _ => false
  | .nonterm name => ["TranslationUnit", "ExternalDeclaration", "FunctionDefinition"].contains name

def startsBlock : NamedSymbol → Bool
  | .term _ => false
  | .nonterm name => ["BlockOpen", "CompoundStatement", "Statement", "BlockItem", "BlockItemList"].contains name

def statements : List String := ["Declaration", "BlockOpen", "CompoundStatement", "BlockItemList", "BlockItem",
  "Statement", "LabeledStatement", "ExpressionStatement", "SelectionStatement", "IterationStatement", "JumpStatement"]

def settles : NamedSymbol → Bool
  | .term name => name != "leftBrace"
  | .nonterm name => name == "DirectDeclarator" || statements.contains name

def flat : NamedSymbol → Bool
  | .term name => name != "for"
  | .nonterm name => !topLevel (.nonterm name) && !statements.contains name

def guarded : Bool → List NamedSymbol → Bool
  | _, [] => true
  | settled, x :: xs => (settled || !startsBlock x) && guarded (settles x) xs

section Guarded

variable {settled : Bool} {x : NamedSymbol} {xs : List NamedSymbol} (h : guarded settled (x :: xs) = true)

include h

lemma settled_of_guarded (hx : startsBlock x = true) : settled = true := by
  rw [guarded, hx, Bool.not_true, Bool.or_false, Bool.and_eq_true] at h
  exact h.1

lemma guarded_rest : guarded (settles x) xs = true := (Bool.and_eq_true_iff.mp h).2

end Guarded

lemma settling : ∀ r ∈ rules,
    (r.left ≠ "FunctionDefinition" → guarded (startsBlock (.nonterm r.left)) r.right = true) ∧
    (settles (.nonterm r.left) = true → r.left ≠ "BlockOpen" →
      categoryOf r.left ≠ .declarator ∧ r.right.getLast?.any settles = true) := by
  decide +kernel

lemma nesting : ∀ r ∈ rules,
    (topLevel (.nonterm r.left) = false → r.right.all (fun x => !topLevel x) = true) ∧
    (flat (.nonterm r.left) = true → r.right.all flat = true ∧ categoryOf r.left ∉
      [Category.functionDefinition, .declaration, .blockOpen, .compoundStatement, .iterationStatement]) := by
  decide +kernel

lemma filing : ∀ r ∈ rules,
    (topLevel (.nonterm r.left) = true → categoryOf r.left = .functionDefinition ∨
      (roleOf r = .other ∧ categoryOf r.left = .other ∧ ∀ x ∈ r.right, topLevel x = true ∨ x = n "Declaration")) ∧
    (categoryOf r.left = .declarator → r.right.getLast? = some (n "DirectDeclarator")) := by
  decide +kernel

end Ramify.C.Rules
