import Ramify.Grammar
import Ramify.Text.Quoted

/-! The written form of grammars. Each line holds one rule `label: Left -> symbols`, the
label being optional. Names of terminals start with a lower-case letter or an underscore,
names of nonterminals with an upper-case letter; a punctuation mark stands for the terminal
that bears its name. Two dashes open a comment. -/

namespace Ramify.Grammar

def markNames : List (Char × String) := [
  ('.', "dot"), ('-', "minus"), ('~', "tilde"), ('`', "backtick"), ('!', "exclamation"),
  ('@', "at"), ('#', "hash"), ('$', "dollar"), ('%', "percent"), ('^', "caret"),
  ('&', "ampersand"), ('*', "asterisk"), ('+', "plus"), ('=', "equals"), ('|', "pipe"),
  ('\\', "backslash"), ('<', "lessThan"), ('>', "greaterThan"), ('?', "question"),
  ('/', "slash"), (';', "semicolon"), ('(', "leftParen"), (')', "rightParen"),
  ('[', "leftBrack"), (']', "rightBrack"), ('\x7b', "leftBrace"), ('\x7d', "rightBrace"),
  (',', "comma"), ('\'', "singleQuote"), ('"', "doubleQuote"), (':', "colon")]

def markName? (c : Char) : Option String := markNames.lookup c

inductive NotationToken where
  | label (name : String)
  | symbol (s : NamedSymbol)
  | arrow
deriving DecidableEq

def isGap (c : Char) : Bool := c == ' ' || c == '\t' || c == '\x0c' || c == '\r'

def isWordChar (c : Char) : Bool := c.isAlphanum || c == '_'

def lineTokens : List Char → Except Char (List NotationToken)
  | [] => .ok []
  | '-' :: '-' :: _ => .ok []
  | '-' :: '>' :: rest => (lineTokens rest).map (.arrow :: ·)
  | c :: rest =>
    if isGap c then lineTokens rest
    else if c.isLower || c == '_' then
      let run := rest.takeWhile isWordChar
      let word := String.ofList (c :: run)
      if rest[run.length]? = some ':' then
        (lineTokens (rest.drop (run.length + 1))).map (.label word :: ·)
      else (lineTokens (rest.drop run.length)).map (.symbol (.term word) :: ·)
    else if c.isUpper then
      let run := rest.takeWhile isWordChar
      let word := String.ofList (c :: run)
      (lineTokens (rest.drop run.length)).map (.symbol (.nonterm word) :: ·)
    else
      match markName? c with
      | some name => (lineTokens rest).map (.symbol (.term name) :: ·)
      | none => .error c
termination_by cs => cs.length
decreasing_by
  all_goals simp only [List.length_cons, List.length_drop]
  all_goals omega

def lines : List Char → List (List Char)
  | [] => [[]]
  | '\n' :: rest => [] :: lines rest
  | c :: rest =>
    match lines rest with
    | line :: more => (c :: line) :: more
    | [] => [[c]]

def symbols? : List NotationToken → Option (List NamedSymbol)
  | [] => some []
  | .symbol s :: rest => (symbols? rest).map (s :: ·)
  | _ => none

def rule? (line : Nat) : List NotationToken → Option Rule
  | .label l :: .symbol (.nonterm a) :: .arrow :: rest =>
    (symbols? rest).map fun right => ⟨line, some l, a, right⟩
  | .symbol (.nonterm a) :: .arrow :: rest =>
    (symbols? rest).map fun right => ⟨line, none, a, right⟩
  | _ => none

def tokenLines (text : String) : Except GrammarError (List (Nat × List NotationToken)) := do
  let numbered ← (lines text.toList).zipIdx.mapM fun (line, i) =>
    match lineTokens line with
    | .ok tokens => .ok (i + 1, tokens)
    | .error c => .error (.unexpected (i + 1) c)
  return numbered.filter fun (_, tokens) => !tokens.isEmpty

def rules (text : String) : Except GrammarError (List Rule) := do
  (← tokenLines text).mapM fun (line, tokens) =>
    match rule? line tokens with
    | some r => .ok r
    | none => .error (.malformed line)

def parse (text : String) : Except GrammarError Grammar := do ofRules (← rules text)

end Ramify.Grammar

namespace Ramify

def GrammarError.message : GrammarError → String
  | .unexpected line c => s!"line {line}: unexpected {Text.quoted (String.singleton c)}"
  | .malformed line => s!"line {line}: malformed production"
  | .empty => "grammar has no productions"
  | .startFirst => "`Start` is reserved"
  | .startReserved line => s!"line {line}: `Start` is reserved"
  | .endReserved line => s!"line {line}: `end` is reserved"
  | .duplicateLabel line label => s!"line {line}: duplicate production label `{label}`"
  | .withoutProductions names =>
    "non-terminals without productions: " ++ ", ".intercalate names

end Ramify
