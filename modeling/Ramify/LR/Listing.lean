import Ramify.LR.Generator

namespace Ramify.LR.Construction

variable (K : Construction)

def symbolNames : Array String := K.grammar.nonterminals ++ K.grammar.terminals

def name (names : Array String) (s : Nat) : String := names.getD s ""

def markedSymbols (names : Array String) (dot : Option Nat) : Nat → List Nat → String
  | i, [] => if dot = some i then " ." else ""
  | i, s :: rest =>
    (if dot = some i then " ." else "") ++ " " ++ name names s ++
      markedSymbols names dot (i + 1) rest

def ruleText (names : Array String) (rule : Nat) (dot : Option Nat) : String :=
  match K.numbered.rules[rule]? with
  | none => ""
  | some r => name names r.left ++ " ->" ++ markedSymbols names dot 0 r.right

def blanks (n : Nat) : String := String.ofList (List.replicate n ' ')

def padLeft (width : Nat) (s : String) : String := blanks (width - s.length) ++ s

def padRight (width : Nat) (s : String) : String := s ++ blanks (width - s.length)

def productionLines (names : Array String) : List String :=
  K.grammar.productions.toList.zipIdx.map fun (p, i) =>
    padLeft 4 (toString i) ++ " " ++ padRight 24 p.label ++ " " ++ K.ruleText names i none

def braced (names : List String) : String := "\x7b" ++ ", ".intercalate names ++ "\x7d"

def setNames (names : Array String) (set : Nat) : List String :=
  (elements K.numbered.symbolCount set).map (name names)

def stateLines (names : Array String) (state : Nat) : List String :=
  let kernel := K.lookaheads.kernels.getD state []
  let items := kernel.map fun (i, la) =>
    "    " ++ K.ruleText names i.rule (some i.dot) ++ "    " ++ braced (K.setNames names la)
  let moves := (K.collection.transitions.getD state []).map fun (s, t) =>
    s!"    {name names s} => {t}"
  (s!"state {state}" :: items) ++ moves ++ [""]

def firstLine (names : Array String) (a : Nat) : String :=
  let F := K.analysis.firstSets
  let empty := if F.isNullable a then ["`empty'"] else []
  name names a ++ " " ++ braced (empty ++ K.setNames names (F.ofSymbol a))

def listingLines : List String :=
  let names := K.symbolNames
  [s!"PRODUCTIONS {K.grammar.productions.size}", ""] ++ K.productionLines names ++
  ["", s!"STATES {K.collection.size}", ""] ++
  (List.range K.collection.size).flatMap (K.stateLines names) ++
  ["FIRST", ""] ++ (List.range K.numbered.nonterminals).map (K.firstLine names) ++
  ["", s!"CONFLICTS {K.conflicts.length}", ""] ++
  K.conflicts.map (·.named K.grammar.terminals)

def listing : String := String.join (K.listingLines.map (· ++ "\n"))

end Ramify.LR.Construction
