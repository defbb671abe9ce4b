import Ramify.Log
import Ramify.Search.Basic
import Ramify.Text.Blank
import Ramify.Text.Quoted

namespace Ramify.C

structure Config where
  limits : Search.Limits := {}
  trace : Bool := false
  gateValues : Bool := true
deriving DecidableEq

inductive NumberError where
  | empty | invalidDigit | tooLarge
deriving DecidableEq

def NumberError.message : NumberError → String
  | .empty => "cannot parse integer from empty string"
  | .invalidDigit => "invalid digit found in string"
  | .tooLarge => "number too large to fit in target type"

def maxNumber : Nat := 18446744073709551615

def readDigits : Nat → List Char → Except NumberError Nat
  | n, [] => .ok n
  | n, c :: rest =>
    if !c.isDigit then .error .invalidDigit
    else
      let n := n * 10 + (c.toNat - 48)
      if maxNumber < n then .error .tooLarge else readDigits n rest

def readNumber : List Char → Except NumberError Nat
  | [] => .error .empty
  | ['+'] => .error .invalidDigit
  | '+' :: digits => readDigits 0 digits
  | digits => readDigits 0 digits

namespace Config

def traceKey : String := "BTLR_TRACE"
def maxStepsKey : String := "BTLR_MAX_STEPS"
def maxCandidatesKey : String := "BTLR_MAX_CANDIDATES"
def gateValuesKey : String := "BTLR_GATE_VALUES"

variable (env : String → Option String)

def switch (key : String) (default : Bool) : Bool :=
  match env key with
  | some v => v != "0"
  | none => default

def number (key : String) (default : Nat) : Nat :=
  match (env key).map (readNumber <| Text.trimmed ·) with
  | some (.ok n) => n
  | _ => default

def numberRecords (key : String) : List Record :=
  match env key with
  | none => []
  | some raw =>
    match readNumber (Text.trimmed raw) with
    | .ok _ => []
    | .error e => [⟨.warn, s!"ignoring {key}={Text.quoted raw}: {e.message}"⟩]

def ofEnvironment : Config :=
  let d : Config := {}
  { limits.maxSteps := number env maxStepsKey d.limits.maxSteps
    limits.maxCandidates := number env maxCandidatesKey d.limits.maxCandidates
    trace := switch env traceKey d.trace
    gateValues := switch env gateValuesKey d.gateValues }

def environmentRecords : List Record :=
  numberRecords env maxStepsKey ++ numberRecords env maxCandidatesKey

end Config

end Ramify.C
