import Ramify.C.Error
import Ramify.C.Scope
import Ramify.C.Tree
import Ramify.Search.Basic

/-! Building trees of C while parsing. Each path carries the scopes as far as it has read, and
an identifier is refused as the name of a type where the scopes do not know it as one. The
scopes are provisional: they are good enough to prune, the final check is done on whole
trees. A production that lacks the child its role or category speaks of has no meaning. -/

namespace Ramify.C

/-- The scopes of a path, and the parameters of the declarator just read, which become
names of the function body if one follows. -/
structure Context where
  scopes : Scopes := {}
  pending : Option (List Declared) := none

structure Reader where
  vocabulary : Vocabulary
  tokens : Array Token
  gateValues : Bool

def bindAll (s : Scopes) (kind : NameKind) (names : List Declared) : Scopes :=
  names.foldl (fun s d => s.bind d.name kind d.span) s

def Part.category? (V : Vocabulary) (part : Part) : Option Category :=
  match part.kind with
  | .terminal _ => none
  | .nonterminal p => some (V.category p)

def spanOf : List Part → Span
  | [] => {}
  | part :: rest => rest.foldl (fun s part => s.merge part.span) part.span

namespace Scopes

/-- What is wrong with the use of a name as far as the scopes tell. A name of a type must be
known as such; any other must not be known as a name of a type. -/
def refusal? (s : Scopes) (kind : NameKind) (name : String) : Option ErrorKind :=
  match kind, (s.lookup name).map Binding.kind with
  | .typedef, some .typedef => none
  | .typedef, some .ordinary => some .invalidSymbolKind
  | .typedef, none => some .undeclaredIdentifier
  | .ordinary, some .typedef => some .invalidSymbolKind
  | .ordinary, _ => none

end Scopes

namespace Reader

variable (R : Reader)

abbrev Outcome (α : Type) := Except (Refusal FrontError) α

def identifier (part : Part) : Declared :=
  let token := match part.kind with
    | .terminal t => some t
    | .nonterminal _ => none
  let name := (token.bind (R.tokens[·]?)).map Token.text
  ⟨name.getD "", token, part.span⟩

def firstName : List Part → Outcome Declared
  | [] => .error .undefined
  | part :: _ => .ok (R.identifier part)

def gates : NameKind → Bool
  | .typedef => true
  | .ordinary => R.gateValues

def permitUse (scopes : Scopes) (kind : NameKind) (parts : List Part) : Outcome Unit := do
  let d ← R.firstName parts
  match scopes.refusal? kind d.name with
  | some error => .error (.reject ⟨.parser, error, d.span, d.name⟩)
  | none => return ()

def permit (scopes : Scopes) (role : Role) (parts : List Part) : Outcome Unit :=
  match role.use? with
  | some kind => if R.gates kind then R.permitUse scopes kind parts else .ok ()
  | none => .ok ()

def roleAnnotations (role : Role) (parts : List Part) : Outcome Annotations :=
  match role with
  | .declaratorName => do return { declares := [← R.firstName parts] }
  | .typedefStorage => .ok { typedef := true }
  | .namedType => .ok { spec := ⟨1, true⟩ }
  | _ => .ok {}

def declaredBy (parts : List Part) : List Declared :=
  (parts.filter fun part => part.category? R.vocabulary != some .parameterTypeList).flatMap
    fun part => part.annotations.declares

def isDeclarator (part : Part) : Bool :=
  match part.category? R.vocabulary with
  | some .declarator | some .directDeclarator => true
  | _ => false

/-- The parameters of a declarator: those of the declarator inside it, or its own. -/
def paramsOf (role : Role) (parts : List Part) : Option (List Declared) :=
  let inside := (parts.filter R.isDeclarator).findSome? fun part => part.annotations.params
  match inside, role with
  | some params, _ => some params
  | none, .functionDeclarator =>
    (parts.find? fun part => part.category? R.vocabulary == some .parameterTypeList).map
      fun part => part.annotations.declares
  | none, .functionDeclaratorEmpty => some []
  | none, _ => none

def categoryAnnotations (role : Role) (category : Category) (parts : List Part) (ann : Annotations) :
    Outcome Annotations :=
  let declares := ann.declares ++ R.declaredBy parts
  match category with
  | .typeSpecifier => .ok (if role = .namedType then ann else { ann with spec := ⟨1, false⟩ })
  | .declarationSpecifiers | .specifierQualifierList =>
    let spec := parts.foldl (fun s part => s.add part.annotations.spec) ann.spec
    .ok { ann with spec, typedef := ann.typedef || parts.any fun part => part.annotations.typedef }
  | .declarator | .directDeclarator => .ok { ann with declares, params := R.paramsOf role parts }
  | .declaratorInit | .initDeclarator | .initDeclaratorList | .parameterDeclaration | .parameterList
  | .parameterTypeList => .ok { ann with declares }
  | .declaration =>
    match parts with
    | [] => .error .undefined
    | specifiers :: rest =>
      let declares := match rest with
        | [list, _] => list.annotations.declares
        | _ => ann.declares
      .ok { ann with typedef := specifiers.annotations.typedef, declares }
  | .enumerator => do return { ann with declares := [← R.firstName parts] }
  | .blockOpen | .compoundStatement | .iterationStatement | .functionDefinition
  | .directAbstractDeclarator | .other => .ok ann

def annotate (role : Role) (category : Category) (parts : List Part) : Outcome Annotations := do
  R.categoryAnnotations role category parts (← R.roleAnnotations role parts)

def checkSpecifiers (category : Category) (span : Span) (ann : Annotations) : Outcome Unit :=
  match category with
  | .declarationSpecifiers | .specifierQualifierList =>
    if ann.spec.isConsistent then .ok ()
    else .error (.reject { stage := .parser, kind := .inconsistentSpecifiers, span })
  | _ => .ok ()

def contextAfter (ctx : Context) (kind : TokenKind) : Context where
  scopes := if kind = .keyword .for_ then ctx.scopes.push else ctx.scopes
  pending := if kind = .punctuator .leftBrace then ctx.pending else none

def advance (ctx : Context) (role : Role) (category : Category) (ann : Annotations) : Context :=
  match category with
  | .declarator => { ctx with pending := ann.params.or ctx.pending }
  | .declaratorInit | .enumerator => { ctx with scopes := bindAll ctx.scopes .ordinary ann.declares }
  | .declaration =>
    let kind := if ann.typedef then .typedef else .ordinary
    { ctx with scopes := bindAll ctx.scopes kind ann.declares }
  | .blockOpen => ⟨bindAll ctx.scopes.push .ordinary (ctx.pending.getD []), none⟩
  | .compoundStatement => { ctx with scopes := ctx.scopes.pop }
  | .iterationStatement => if role = .forLoop then { ctx with scopes := ctx.scopes.pop } else ctx
  | _ => ctx

def interpretAs (ctx : Context) (role : Role) (category : Category) (parts : List Part) :
    Outcome (Context × Annotations) := do
  R.permit ctx.scopes role parts
  let ann ← R.annotate role category parts
  checkSpecifiers category (spanOf parts) ann
  return (advance ctx role category ann, ann)

def interpret (ctx : Context) (production : Nat) (parts : List Part) : Outcome (Context × Annotations) :=
  match R.vocabulary.role? production, R.vocabulary.category? production with
  | some role, some category => R.interpretAs ctx role category parts
  | _, _ => .error .undefined

variable {R}

theorem interpret_of_covers {production : Nat} (h : R.vocabulary.Covers production) (ctx : Context)
    (parts : List Part) : R.interpret ctx production parts =
      R.interpretAs ctx (R.vocabulary.role production) (R.vocabulary.category production) parts := by
  rw [interpret, h.role?_eq, h.category?_eq]

theorem interpret_of_not_covers {production : Nat} (h : ¬ R.vocabulary.Covers production) (ctx : Context)
    (parts : List Part) : R.interpret ctx production parts = .error .undefined := by
  rw [interpret]
  split
  · rename_i role category hrole hcategory
    exact absurd ⟨Option.isSome_of_eq_some hrole, Option.isSome_of_eq_some hcategory⟩ h
  · rfl

variable (R)

def shift (pool : Pool) (ctx : Context) (token : Token) (index : Nat) :
    Pool × Except FrontError (Context × Nat) :=
  let (pool, id) := pool.push { kind := .terminal index, children := [], span := token.span }
  (pool, .ok (contextAfter ctx token.kind, id))

def reduce (pool : Pool) (ctx : Context) (p : Production) (children : List Nat) :
    Pool × Outcome (Context × Nat) :=
  let parts := children.map pool.part
  match R.interpret ctx p.index parts with
  | .error e => (pool, .error e)
  | .ok (ctx, annotations) =>
    let (pool, id) :=
      pool.push { kind := .nonterminal p.index, children, span := spanOf parts, annotations }
    (pool, .ok (ctx, id))

def unexpected (token : Token) : FrontError :=
  ⟨.parser, .unexpectedToken, token.span, s!"unexpected {token.shown}"⟩

/-- The builder of trees: values are the numbers of nodes in a pool. -/
def builder : Builder Token Nat Context FrontError Pool where
  terminal t := R.vocabulary.terminal? t.kind
  initial := {}
  shift := shift
  reduce := R.reduce
  syntaxError t _ := unexpected t

end Reader

end Ramify.C
