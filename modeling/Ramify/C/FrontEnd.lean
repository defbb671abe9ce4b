import Ramify.C.Check
import Ramify.C.Config
import Ramify.C.Lexer
import Ramify.C.Reading
import Ramify.Search

/-! The front end: tokens, all parses, the parses that respect scopes, and the one parse of
a text that has exactly one. -/

namespace Ramify.C

structure FrontEnd where
  vocabulary : Vocabulary
  config : Config := {}

structure Forest where
  tokens : Array Token
  trees : List Tree
  stats : Search.Stats

structure Survey where
  tokens : Array Token
  survivors : List Tree
  rejected : List (Nat × ScopeError)

structure TranslationUnit where
  tokens : Array Token
  tree : Tree

namespace FrontEnd

variable (E : FrontEnd)

def reader (tokens : Array Token) : Reader := ⟨E.vocabulary, tokens, E.config.gateValues⟩

def checker (tokens : Array Token) : Checker := ⟨E.vocabulary, tokens⟩

def parser (tokens : Array Token) : Search.Parser Token Nat Context FrontError Pool where
  table := E.vocabulary.table
  builder := (E.reader tokens).builder
  limits := E.config.limits
  traced := E.config.trace

def search (tokens : Array Token) : Search.Parse Nat FrontError Pool := (E.parser tokens).parse {} {} tokens

def endSpan (tokens : Array Token) : Span := (tokens.back?.map Token.span).getD {}

def undefinedAt (tokens : Array Token) (production : Nat) : FrontError :=
  ⟨.parser, .malformedTable, endSpan tokens, s!"production {production} has no meaning"⟩

def errorOf (tokens : Array Token) (f : Search.Failure FrontError) : FrontError :=
  let span := endSpan tokens
  match f with
  | .noParse e => e
  | .searchLimit steps => ⟨.parser, .searchLimitExceeded, span, s!"more than {steps} steps"⟩
  | .candidateLimit limit =>
    ⟨.parser, .searchLimitExceeded, span, s!"more than {limit} candidates"⟩
  | .missingGoto state n =>
    ⟨.parser, .malformedTable, span, s!"no goto from state {state} on {n}"⟩
  | .undefined production => undefinedAt tokens production
  | .emptyInput => ⟨.parser, .unexpectedToken, span, "empty token sequence"⟩

def parseTokens (tokens : Array Token) : Except FrontError (List Tree × Search.Stats) :=
  let p := E.search tokens
  match p.result with
  | .error f => .error (errorOf tokens f)
  | .ok roots => .ok (roots.map p.store.tree, p.stats)

def forest (source : List UInt8) : Except FrontError Forest :=
  match tokenize source with
  | .error e => .error (.ofLex e)
  | .ok list => do
    let tokens := list.toArray
    let (trees, stats) ← E.parseTokens tokens
    return ⟨tokens, trees, stats⟩

def analyze (source : List UInt8) : Except FrontError Survey := do
  let f ← E.forest source
  match (E.checker f.tokens).sort f.trees with
  | .ok sorted => return ⟨f.tokens, sorted.survivors, sorted.rejected⟩
  | .error production => throw (undefinedAt f.tokens production)

/-- The error that lies farthest in the text; of two equally far the later. -/
def farthest : List ScopeError → Option ScopeError
  | [] => none
  | e :: rest =>
    some (rest.foldl (fun best e => if (compare e.span best.span).isGE then e else best) e)

def parse (source : List UInt8) : Except FrontError TranslationUnit := do
  let survey ← E.analyze source
  match survey.survivors with
  | [tree] => return ⟨survey.tokens, tree⟩
  | [] =>
    match farthest (survey.rejected.map Prod.snd) with
    | some e => throw (.ofScope e)
    | none => throw { stage := .parser, kind := .unexpectedToken, span := {} }
  | first :: rest =>
    throw ⟨.parser, .ambiguous, first.span, s!"{rest.length + 1} valid parses"⟩

/-! ### Records -/

def tokenRecords (tokens : Array Token) : List Record :=
  let p := E.search tokens
  let made : List Record := match p.result with
    | .ok roots =>
      [⟨.debug, s!"{roots.length} candidate(s) from {tokens.size} tokens using {p.store.size} nodes"⟩]
    | .error _ => []
  p.eventRecords FrontError.fields ++ p.records ++ made

def checkRecords (tokens : Array Token) : List Record :=
  match E.parseTokens tokens with
  | .ok (trees, _) =>
    match (E.checker tokens).sort trees with
    | .ok sorted => sorted.records
    | .error _ => []
  | .error _ => []

def forestRecords (source : List UInt8) : List Record :=
  match tokenize source with
  | .error _ => lexRecords source
  | .ok tokens => lexRecords source ++ E.tokenRecords tokens.toArray

def analyzeRecords (source : List UInt8) : List Record :=
  match tokenize source with
  | .error _ => lexRecords source
  | .ok tokens =>
    lexRecords source ++ E.tokenRecords tokens.toArray ++ E.checkRecords tokens.toArray

end FrontEnd

end Ramify.C
