import Ramify.C.Literal
import Ramify.C.Numeral
import Ramify.C.Punctuation
import Ramify.C.Word

/-! From bytes to tokens. Between tokens stand blanks and comments. -/

namespace Ramify.C

inductive Front where
  | token
  | gap (size : Nat)
  | unclosed

def isBlank (b : UInt8) : Bool := b == 32 || (9 ≤ b && b ≤ 13)

def blockComment? : List UInt8 → Option Nat
  | [] => none
  | b :: rest =>
    if b = 42 && rest.head? = some 47 then some 2 else (blockComment? rest).map (· + 1)

def front : List UInt8 → Front
  | [] => .token
  | b :: rest =>
    if isBlank b then .gap 1
    else if b = 47 && rest.head? = some 42 then
      match blockComment? rest.tail with
      | some n => .gap (n + 2)
      | none => .unclosed
    else if b = 47 && rest.head? = some 47 then .gap ((rest.takeWhile (· != 10)).length + 1)
    else .token

theorem front_gap_pos {bytes : List UInt8} {n : Nat} (h : front bytes = .gap n) :
    0 < n ∧ bytes ≠ [] := by
  cases bytes with
  | nil => simp [front] at h
  | cons b rest =>
    refine ⟨?_, by simp⟩
    simp only [front] at h
    split at h
    · cases h; omega
    · split at h
      · split at h <;> cases h; omega
      · split at h <;> cases h; omega

def skipTrivia (c : Cursor) : Except LexError Cursor :=
  match _h : front c.rest with
  | .token => .ok c
  | .gap n => skipTrivia (c.skip n)
  | .unclosed => .error ⟨.unidentifiedToken, c.spanTo (c.skip c.rest.length)⟩
termination_by c.rest.length
decreasing_by
  have ⟨hn, hne⟩ := front_gap_pos _h
  have := List.length_pos_iff.mpr hne
  rw [Cursor.rest_skip, List.length_drop]
  omega

inductive TokenClass where
  | word | number | string | char | punctuator

def tokenClass (b : UInt8) (following : Option UInt8) : TokenClass :=
  if b = 34 then .string
  else if b = 39 then .char
  else if isNondigit b then .word
  else if isDigit b then .number
  else if b = 46 && following.any isDigit then .number
  else .punctuator

def TokenClass.scan (c : Cursor) : TokenClass → Except LexError Token × Cursor
  | .word => Word.recognizer.scan c
  | .number => Numeral.recognizer.scan c
  | .string => Literal.stringRecognizer.scan c
  | .char => Literal.charRecognizer.scan c
  | .punctuator => Punctuation.recognizer.scan c

def TokenClass.records (c : Cursor) : TokenClass → List Record
  | .word => Word.recognizer.records c
  | .number => Numeral.recognizer.records c
  | .string => Literal.stringRecognizer.records c
  | .char => Literal.charRecognizer.records c
  | .punctuator => Punctuation.recognizer.records c

def scanNumber (c : Cursor) : Except LexError Token × Cursor :=
  match TokenClass.number.scan c with
  | (.error e, stop) => (.error e, stop)
  | (.ok t, stop) =>
    if stop.peek?.any isWordByte then
      let beyond := stop.skipWhile isWordByte
      (.error ⟨.unidentifiedToken, c.spanTo beyond⟩, beyond)
    else (.ok t, stop)

def scanToken (c : Cursor) : Except LexError Token × Cursor :=
  match c.peek? with
  | none => (.ok (.endAt c.position), c)
  | some b =>
    match tokenClass b (c.ahead? 1) with
    | .number => scanNumber c
    | other => other.scan c

def nextToken (c : Cursor) : Except LexError Token × Cursor :=
  match skipTrivia c with
  | .error e => (.error e, c)
  | .ok c => scanToken c

structure Lexing where
  tokens : List Token := []
  error : Option LexError := none

def lexFrom : Nat → Cursor → Lexing
  | 0, _ => {}
  | fuel + 1, c =>
    match nextToken c with
    | (.error e, _) => { error := some e }
    | (.ok t, stop) =>
      if t.kind = .endMark then { tokens := [t] }
      else
        let l := lexFrom fuel stop
        { l with tokens := t :: l.tokens }

def lex (source : List UInt8) : Lexing := lexFrom (source.length + 1) (.ofBytes source)

def tokenize (source : List UInt8) : Except LexError (List Token) :=
  match lex source with
  | { error := some e, .. } => .error e
  | { tokens, .. } => .ok tokens

def tokenRecords (c : Cursor) : List Record :=
  let moves := match skipTrivia c with
    | .error _ => []
    | .ok c => match c.peek? with
      | none => []
      | some b => (tokenClass b (c.ahead? 1)).records c
  let outcome : List Record := match (nextToken c).1 with
    | .ok t =>
      if t.kind = .endMark then []
      else [⟨.trace, s!"token {t.kind.name} {t.shown} at {t.span.text}"⟩]
    | .error e => [⟨.debug, s!"lexer stopped: {e.message}"⟩]
  moves ++ outcome

def lexRecordsFrom : Nat → Cursor → List Record
  | 0, _ => []
  | fuel + 1, c =>
    let here := tokenRecords c
    match nextToken c with
    | (.error _, _) => here
    | (.ok t, stop) => if t.kind = .endMark then here else here ++ lexRecordsFrom fuel stop

def lexRecords (source : List UInt8) : List Record :=
  lexRecordsFrom (source.length + 1) (.ofBytes source)

end Ramify.C
