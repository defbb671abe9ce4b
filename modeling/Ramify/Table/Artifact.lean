import Ramify.Json
import Ramify.Table

/-! Tables as JSON documents. A record may be read from an object or from the array of its
fields in order; fields that are not known are skipped, but none may be missing or come
twice. -/

namespace Ramify.Table

open Json (Value)

/-! ### Writing -/

def symbolValue : Symbol → Value
  | .term t => .record [("Term", .nat t)]
  | .nonterm n => .record [("NonTerm", .nat n)]

def productionValue (p : Production) : Value :=
  .record [("index", .nat p.index), ("label", .string p.label), ("lhs", .nat p.lhs),
    ("ordinal", .nat p.ordinal), ("rhs", .array (p.rhs.map symbolValue))]

def actionValue : Action → Value
  | .shift s => .record [("Shift", .nat s)]
  | .reduce p => .record [("Reduce", .nat p)]
  | .accept => .string "Accept"

def cellValue : Nat × List Action → Value
  | (t, acts) => .array [.nat t, .array (acts.map actionValue)]

def gotoValue : Nat × Nat → Value
  | (n, s) => .array [.nat n, .nat s]

def toValue (T : Table) : Value :=
  .record [
    ("version", .nat T.version),
    ("terminals", .array (T.terminals.toList.map .string)),
    ("nonterminals", .array (T.nonterminals.toList.map .string)),
    ("productions", .array (T.productions.toList.map productionValue)),
    ("end", .nat T.endMark),
    ("actions", .array (T.actions.toList.map fun row => .array (row.toList.map cellValue))),
    ("gotos", .array (T.gotos.toList.map fun row => .array (row.toList.map gotoValue)))]

def toJson (T : Table) : String := Json.pretty 0 T.toValue

/-! ### Reading -/

def nat? : Value → Option Nat
  | .nat n => some n
  | _ => none

def word32? : Value → Option Nat
  | .nat n => if n ≤ 4294967295 then some n else none
  | _ => none

def string? : Value → Option String
  | .str s => s
  | _ => none

def list? {α : Type} (item? : Value → Option α) : Value → Option (List α)
  | .array items => items.mapM item?
  | _ => none

def array? {α : Type} (item? : Value → Option α) (v : Value) : Option (Array α) :=
  (list? item? v).map List.toArray

def pair? {α β : Type} (fst? : Value → Option α) (snd? : Value → Option β) :
    Value → Option (α × β)
  | .array [v, w] => do return (← fst? v, ← snd? w)
  | _ => none

def fields? (names : List String) : Value → Option (List Value)
  | .array items => if items.length = names.length then some items else none
  | .object members => do
    let members ← members.mapM fun (k, v) => k.map (·, v)
    names.mapM fun name =>
      match members.filter (·.1 == name) with
      | [(_, v)] => some v
      | _ => none
  | _ => none

def symbol? : Value → Option Symbol
  | .object [(some "Term", v)] => (nat? v).map .term
  | .object [(some "NonTerm", v)] => (nat? v).map .nonterm
  | _ => none

def action? : Value → Option Action
  | .str (some "Accept") => some .accept
  | .object [(some "Accept", .null)] => some .accept
  | .object [(some "Shift", v)] => (nat? v).map .shift
  | .object [(some "Reduce", v)] => (nat? v).map .reduce
  | _ => none

def productionOf? (v : Value) : Option Production := do
  let [index, label, lhs, ordinal, rhs] ← fields? ["index", "label", "lhs", "ordinal", "rhs"] v
    | none
  return ⟨← nat? index, ← string? label, ← nat? lhs, ← nat? ordinal, ← list? symbol? rhs⟩

def ofValue? (v : Value) : Option Table := do
  let [version, terminals, nonterminals, productions, endMark, actions, gotos] ←
    fields? ["version", "terminals", "nonterminals", "productions", "end", "actions", "gotos"] v
    | none
  return {
    version := ← word32? version
    terminals := ← array? string? terminals
    nonterminals := ← array? string? nonterminals
    productions := ← array? productionOf? productions
    endMark := ← nat? endMark
    actions := ← array? (array? (pair? nat? (list? action?))) actions
    gotos := ← array? (array? (pair? nat? nat?)) gotos }

def ofJson (text : String) : Except TableError Table := do
  let some T := (Json.parse? text).bind ofValue? | throw .malformed
  T.validate
  return T

end Ramify.Table
