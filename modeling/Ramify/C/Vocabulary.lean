import Ramify.C.Scope
import Ramify.C.Token
import Ramify.Table

/-! What the front end has to know of a grammar for C: the terminal of each kind of token,
the productions with a role of their own, and the categories of nonterminals. -/

namespace Ramify.C

inductive Role where
  | typedefName
  | primaryIdentifier
  | declaratorName
  | typedefStorage
  | namedType
  | functionDeclarator
  | functionDeclaratorEmpty
  | forLoop
  | other
deriving DecidableEq, Inhabited

def Role.labels : List (String × Role) := [
  ("typedefName", .typedefName),
  ("primaryIdentifier", .primaryIdentifier),
  ("declaratorName", .declaratorName),
  ("typedefStorage", .typedefStorage),
  ("namedType", .namedType),
  ("functionDeclarator", .functionDeclarator),
  ("functionDeclaratorEmpty", .functionDeclaratorEmpty),
  ("forExpr", .forLoop),
  ("forExprStep", .forLoop),
  ("forDecl", .forLoop),
  ("forDeclStep", .forLoop)]

def Role.use? : Role → Option NameKind
  | primaryIdentifier => some .ordinary
  | typedefName => some .typedef
  | _ => none

inductive Category where
  | functionDefinition
  | declaration
  | declarationSpecifiers
  | specifierQualifierList
  | typeSpecifier
  | initDeclaratorList
  | initDeclarator
  | declaratorInit
  | declarator
  | directDeclarator
  | directAbstractDeclarator
  | parameterTypeList
  | parameterList
  | parameterDeclaration
  | enumerator
  | blockOpen
  | compoundStatement
  | iterationStatement
  | other
deriving DecidableEq, Inhabited

def Category.names : List (String × Category) := [
  ("FunctionDefinition", .functionDefinition),
  ("Declaration", .declaration),
  ("DeclarationSpecifiers", .declarationSpecifiers),
  ("SpecifierQualifierList", .specifierQualifierList),
  ("TypeSpecifier", .typeSpecifier),
  ("InitDeclaratorList", .initDeclaratorList),
  ("InitDeclarator", .initDeclarator),
  ("DeclaratorInit", .declaratorInit),
  ("Declarator", .declarator),
  ("DirectDeclarator", .directDeclarator),
  ("DirectAbstractDeclarator", .directAbstractDeclarator),
  ("ParameterTypeList", .parameterTypeList),
  ("ParameterList", .parameterList),
  ("ParameterDeclaration", .parameterDeclaration),
  ("Enumerator", .enumerator),
  ("BlockOpen", .blockOpen),
  ("CompoundStatement", .compoundStatement),
  ("IterationStatement", .iterationStatement)]

structure Vocabulary where
  table : Table
  /-- By the number of the kind. -/
  terminals : Array (Option Nat)
  /-- By production. -/
  roles : Array Role
  /-- By nonterminal. -/
  categories : Array Category

inductive MissingPart where
  | production (label : String)
  | nonterminal (name : String)
deriving DecidableEq

def MissingPart.message : MissingPart → String
  | .production label => s!"C grammar has no production `{label}`"
  | .nonterminal name => s!"C grammar has no non-terminal `{name}`"

/-- Why a table does not serve the front end. A production whose index is no place of the table
is not an error that the front end reports: it ends the program. -/
inductive Misfit where
  | missing (part : MissingPart)
  | undefined (size place : Nat)
deriving DecidableEq

def Misfit.message : Misfit → String
  | .missing part => part.message
  | .undefined size place => s!"index out of bounds: the len is {size} but the index is {place}"

namespace Vocabulary

/-- Puts what the entries give at the places of their names; of two at one place the later. -/
def assign {α : Type} (place : String → Except MissingPart Nat) :
    List (String × α) → Array α → Except Misfit (Array α)
  | [], values => .ok values
  | (name, a) :: rest, values =>
    match place name with
    | .error part => .error (.missing part)
    | .ok k =>
      if h : k < values.size then assign place rest (values.set k a h)
      else .error (.undefined values.size k)

def rolePlace (T : Table) (label : String) : Except MissingPart Nat :=
  match T.production? label with
  | some p => .ok p.index
  | none => .error (.production label)

def categoryPlace (T : Table) (name : String) : Except MissingPart Nat :=
  match T.nonterminal? name with
  | some n => .ok n
  | none => .error (.nonterminal name)

def terminalOf (T : Table) (kind : TokenKind) : Option Nat :=
  if kind = .endMark then some T.endMark else T.terminal? kind.terminal

def ofTable (T : Table) : Except Misfit Vocabulary := do
  let roles ← assign (rolePlace T) Role.labels (Array.replicate T.productions.size .other)
  let categories ←
    assign (categoryPlace T) Category.names (Array.replicate T.nonterminals.size .other)
  return ⟨T, (TokenKind.all.map (terminalOf T)).toArray, roles, categories⟩

variable (V : Vocabulary)

def terminal? (kind : TokenKind) : Option Nat := V.terminals.getD kind.rank none

/-- The role of a production; none for a number that no production has. -/
def role? (production : Nat) : Option Role := V.roles[production]?

def category? (production : Nat) : Option Category :=
  V.table.productions[production]?.bind fun p => V.categories[p.lhs]?

def role (production : Nat) : Role := (V.role? production).getD .other

def category (production : Nat) : Category := (V.category? production).getD .other

def Covers (production : Nat) : Prop :=
  (V.role? production).isSome ∧ (V.category? production).isSome

variable {V} {production : Nat}

theorem role_of_role? {role : Role} (h : V.role? production = some role) : V.role production = role := by
  rw [Vocabulary.role, h, Option.getD_some]

theorem category_of_category? {category : Category} (h : V.category? production = some category) :
    V.category production = category := by
  rw [Vocabulary.category, h, Option.getD_some]

theorem Covers.role?_eq (h : V.Covers production) : V.role? production = some (V.role production) := by
  obtain ⟨r, hr⟩ := Option.isSome_iff_exists.mp h.1
  rw [hr, role_of_role? hr]

theorem Covers.category?_eq (h : V.Covers production) :
    V.category? production = some (V.category production) := by
  obtain ⟨c, hc⟩ := Option.isSome_iff_exists.mp h.2
  rw [hc, category_of_category? hc]

variable (V)

def label (production : Nat) : String :=
  match V.table.productions[production]? with
  | some p => p.label
  | none => ""

end Vocabulary

end Ramify.C
