import Ramify.Position
import Ramify.Automaton
import Ramify.Text.Quoted

namespace Ramify.C

inductive Stage where
  | lexer | parser
deriving DecidableEq

namespace Stage

def text : Stage → String
  | lexer => "lexer"
  | parser => "parser"

def name : Stage → String
  | lexer => "Lexer"
  | parser => "Parser"

end Stage

inductive ErrorKind where
  | unidentifiedToken
  | invalidCharacter
  | escapeOutOfRange
  | unexpectedToken
  | inconsistentSpecifiers
  | invalidSymbolKind
  | undeclaredIdentifier
  | redefinition
  | searchLimitExceeded
  | malformedTable
  | ambiguous
deriving DecidableEq

namespace ErrorKind

def text : ErrorKind → String
  | unidentifiedToken => "unidentified token"
  | invalidCharacter => "invalid character"
  | escapeOutOfRange => "escape sequence out of range"
  | unexpectedToken => "unexpected token"
  | inconsistentSpecifiers => "inconsistent declaration specifiers"
  | invalidSymbolKind => "invalid symbol kind"
  | undeclaredIdentifier => "undeclared identifier"
  | redefinition => "symbol redefined"
  | searchLimitExceeded => "search limit exceeded"
  | malformedTable => "malformed parse table"
  | ambiguous => "ambiguous input"

def name : ErrorKind → String
  | unidentifiedToken => "UnidentifiedToken"
  | invalidCharacter => "InvalidCharacter"
  | escapeOutOfRange => "EscapeOutOfRange"
  | unexpectedToken => "UnexpectedToken"
  | inconsistentSpecifiers => "InconsistentSpecifiers"
  | invalidSymbolKind => "InvalidSymbolKind"
  | undeclaredIdentifier => "UndeclaredIdentifier"
  | redefinition => "RedefinitionSymbol"
  | searchLimitExceeded => "SearchLimitExceeded"
  | malformedTable => "MalformedTable"
  | ambiguous => "Ambiguous"

end ErrorKind

structure LexError where
  kind : ErrorKind
  span : Span
deriving DecidableEq

namespace LexError

def ofFault (f : Automaton.Fault) : LexError :=
  match f.kind with
  | .unidentifiedToken => ⟨.unidentifiedToken, f.span⟩
  | .invalidCharacter => ⟨.invalidCharacter, f.span⟩

def message (e : LexError) : String := s!"{e.kind.text} at {e.span.text}"

end LexError

structure ScopeError where
  kind : ErrorKind
  name : String
  span : Span
deriving DecidableEq

def ScopeError.message (e : ScopeError) : String :=
  s!"{e.kind.text} `{e.name}` at {e.span.text}"

structure FrontError where
  stage : Stage
  kind : ErrorKind
  span : Span
  detail : String := ""
deriving DecidableEq

namespace FrontError

def ofLex (e : LexError) : FrontError := ⟨.lexer, e.kind, e.span, ""⟩

def ofScope (e : ScopeError) : FrontError := ⟨.parser, e.kind, e.span, e.name⟩

def message (e : FrontError) : String :=
  let detail := if e.detail.isEmpty then "" else s!" ({e.detail})"
  s!"{e.stage.text} error at {e.span.text}: {e.kind.text}{detail}"

def fieldsText (name : String) (fields : List (String × String)) : String :=
  name ++ " \x7b " ++ ", ".intercalate (fields.map fun (f, v) => f ++ ": " ++ v) ++ " \x7d"

def positionFields (p : Position) : String :=
  fieldsText "Position" [("line", toString p.line), ("column", toString p.column)]

def spanFields (s : Span) : String :=
  fieldsText "Span" [("start", positionFields s.start), ("end", positionFields s.stop)]

def fields (e : FrontError) : String :=
  fieldsText "FrontError" [("stage", e.stage.name), ("kind", e.kind.name),
    ("span", spanFields e.span), ("detail", Text.quoted e.detail)]

end FrontError

end Ramify.C
