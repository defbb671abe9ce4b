import Ramify.Proofs.C.TokenSpans
import Ramify.Proofs.Text.Outcomes

/-! Tokens without their places. What the bytes ahead begin with, a gap and behind it a token, an
error or the end, is a function of these bytes alone; the cursor adds the places, which are those of
the two ends. -/

namespace Ramify.C

def placed (span : Span) : Except ErrorKind Token → Except LexError Token
  | .ok token => .ok { token with span }
  | .error kind => .error ⟨kind, span⟩

def settle (c : Cursor) (reading : Except ErrorKind Token × Nat) : Except LexError Token × Cursor :=
  (placed (c.spanTo (c.skip reading.2)) reading.1, c.skip reading.2)

namespace Recognizer

variable {σ κ : Type} (r : Recognizer σ κ)

def read (bytes : List UInt8) : Except ErrorKind Token × Nat :=
  match r.automaton.outcome bytes with
  | (.ok s, n) => ((r.build s (bytes.take n) {}).mapError LexError.kind, n)
  | (.error fault, n) => (.error (LexError.ofFault ⟨fault, {}, ""⟩).kind, n)

structure Uniform (r : Recognizer σ κ) : Prop where
  build : ∀ (s : σ) (lexeme : List UInt8) (span : Span),
    r.build s lexeme span = placed span ((r.build s lexeme {}).mapError LexError.kind)
  newline : r.automaton.StopsAtNewline

variable {r} {bytes : List UInt8} {token : Token} {n : Nat}

lemma Uniform.scan_eq (h : r.Uniform) (c : Cursor) : r.scan c = settle c (r.read c.rest) := by
  rw [scan, Automaton.run_eq, read]
  rcases r.automaton.outcome c.rest with ⟨fault | s, n⟩
  · cases fault <;> rfl
  · change (r.build s (c.sliceTo (c.skip n)) _, _) = _
    rw [Cursor.sliceTo_skip, h.build]
    rfl

lemma exists_build (h : r.read bytes = (.ok token, n)) :
    ∃ s, r.automaton.outcome bytes = (.ok s, n) ∧ r.build s (bytes.take n) {} = .ok token := by
  rw [read] at h
  rcases ho : r.automaton.outcome bytes with ⟨fault | s, m⟩
  · simp [ho] at h
  · rw [ho] at h
    obtain ⟨hbuild, rfl⟩ := Prod.mk.inj h
    refine ⟨s, rfl, ?_⟩
    cases hb : r.build s (bytes.take m) {} with
    | error e => simp [hb, Except.mapError] at hbuild
    | ok t => simpa [hb, Except.mapError] using hbuild

lemma Uniform.read_append (h : r.Uniform) (hr : r.read bytes = (.ok token, n)) (rest : List UInt8) :
    r.read (bytes ++ 10 :: rest) = (.ok token, n) := by
  obtain ⟨s, ho, hbuild⟩ := exists_build hr
  have hle : n ≤ bytes.length := (Automaton.outcome_ok ho).trans (Automaton.walk_length_le _ _)
  simp [read, h.newline.outcome_append ho, List.take_append_of_le_length hle, hbuild, Except.mapError]

lemma Marks.read_ok (h : r.Marks) (hr : r.read bytes = (.ok token, n)) :
    0 < n ∧ n ≤ bytes.length ∧ token.kind ≠ .endMark := by
  obtain ⟨s, ho, hbuild⟩ := exists_build hr
  have hle : n ≤ bytes.length := (Automaton.outcome_ok ho).trans (Automaton.walk_length_le _ _)
  have hrun : r.automaton.run (.ofBytes bytes) = (.ok s, (Cursor.ofBytes bytes).skip n) := by
    simp [Automaton.run_eq, Cursor.ofBytes, ho, Except.mapError]
  obtain ⟨m, hpos, hm, hskip⟩ := Automaton.run_ok h.start hrun
  have hoffset := congrArg Cursor.offset hskip
  simp only [Cursor.offset_skip, Cursor.ofBytes] at hoffset hm
  exact ⟨by omega, hle, (h.build hbuild).1⟩

end Recognizer

lemma Word.uniform : Word.recognizer.Uniform where
  build _ _ _ := rfl
  newline := .of_conditions (by decide)

lemma Numeral.uniform : Numeral.recognizer.Uniform where
  build s lexeme span := by
    dsimp only [Numeral.recognizer]
    generalize (if isInteger s then (TokenKind.integer, integerValue? (asciiChars lexeme))
      else (TokenKind.floating, floatValue? (asciiChars lexeme))) = found
    rcases found with ⟨kind, _ | value⟩ <;> rfl
  newline := .of_conditions (by decide)

lemma Punctuation.uniform : Punctuation.recognizer.Uniform where
  build s _ _ := by cases s <;> rfl
  newline := .of_conditions (by decide)

lemma Literal.stopsAtNewline (name : String) {quote : UInt8} (hquote : quote ≠ 10) :
    (Literal.automaton name quote).StopsAtNewline where
  stops := by
    rintro ⟨s, t, hnext⟩
    cases s <;> simp [Automaton.next, Literal.automaton, hquote.symm] at hnext
  quiet s hmay := by
    cases s <;> simp [Automaton.next, Literal.automaton] at hmay ⊢

lemma Literal.contents_eq (lexeme : List UInt8) (span : Span) :
    Literal.contents lexeme span = (Escape.decode (lexeme.drop 1).dropLast).mapError (⟨·, span⟩) := by
  rw [Literal.contents]
  cases Escape.decode (lexeme.drop 1).dropLast <;> rfl

lemma Literal.string_uniform : Literal.stringRecognizer.Uniform where
  build s lexeme span := by
    dsimp only [Literal.stringRecognizer]
    rw [Literal.contents_eq, Literal.contents_eq]
    cases Escape.decode (lexeme.drop 1).dropLast <;> rfl
  newline := Literal.stopsAtNewline _ (by decide)

lemma Literal.char_uniform : Literal.charRecognizer.Uniform where
  build s lexeme span := by
    dsimp only [Literal.charRecognizer]
    rw [Literal.contents_eq, Literal.contents_eq]
    rcases Escape.decode (lexeme.drop 1).dropLast with _ | _ | ⟨_, _ | _⟩ <;> rfl
  newline := Literal.stopsAtNewline _ (by decide)

namespace TokenClass

variable {k : TokenClass} {bytes : List UInt8} {token : Token} {n : Nat}

def read (bytes : List UInt8) : TokenClass → Except ErrorKind Token × Nat
  | .word => Word.recognizer.read bytes
  | .number => Numeral.recognizer.read bytes
  | .string => Literal.stringRecognizer.read bytes
  | .char => Literal.charRecognizer.read bytes
  | .punctuator => Punctuation.recognizer.read bytes

lemma scan_eq (k : TokenClass) (c : Cursor) : k.scan c = settle c (k.read c.rest) := by
  cases k with
  | word => exact Word.uniform.scan_eq c
  | number => exact Numeral.uniform.scan_eq c
  | string => exact Literal.string_uniform.scan_eq c
  | char => exact Literal.char_uniform.scan_eq c
  | punctuator => exact Punctuation.uniform.scan_eq c

lemma read_append (h : k.read bytes = (.ok token, n)) (rest : List UInt8) :
    k.read (bytes ++ 10 :: rest) = (.ok token, n) := by
  cases k with
  | word => exact Word.uniform.read_append h rest
  | number => exact Numeral.uniform.read_append h rest
  | string => exact Literal.string_uniform.read_append h rest
  | char => exact Literal.char_uniform.read_append h rest
  | punctuator => exact Punctuation.uniform.read_append h rest

lemma read_ok (h : k.read bytes = (.ok token, n)) : 0 < n ∧ n ≤ bytes.length ∧ token.kind ≠ .endMark := by
  cases k with
  | word => exact Word.marks.read_ok h
  | number => exact Numeral.marks.read_ok h
  | string => exact Literal.string_marks.read_ok h
  | char => exact Literal.char_marks.read_ok h
  | punctuator => exact Punctuation.marks.read_ok h

end TokenClass

def readNumeral (bytes : List UInt8) : Except ErrorKind Token × Nat :=
  match TokenClass.number.read bytes with
  | (.error kind, n) => (.error kind, n)
  | (.ok token, n) =>
    if bytes[n]?.any isWordByte then
      (.error .unidentifiedToken, n + ((bytes.drop n).takeWhile isWordByte).length)
    else (.ok token, n)

def readToken : List UInt8 → Except ErrorKind Token × Nat
  | [] => (.ok (.endAt {}), 0)
  | b :: rest =>
    match tokenClass b rest.head? with
    | .number => readNumeral (b :: rest)
    | other => other.read (b :: rest)

section

variable {bytes : List UInt8} {token : Token} {n : Nat}

lemma scanNumber_eq (c : Cursor) : scanNumber c = settle c (readNumeral c.rest) := by
  rw [scanNumber, TokenClass.scan_eq, readNumeral]
  rcases TokenClass.number.read c.rest with ⟨kind | token, n⟩
  · rfl
  · simp only [settle, placed, Cursor.peek?, Cursor.rest_skip, Cursor.skipWhile, List.head?_drop]
    split <;> rename_i hspoiled
    · rw [Cursor.skip_skip]
    · rfl

lemma scanToken_eq (c : Cursor) : scanToken c = settle c (readToken c.rest) := by
  rw [scanToken]
  cases hrest : c.rest with
  | nil => simp [Cursor.peek?, hrest, readToken, settle, Cursor.skip, placed, Token.endAt, Span.point, Cursor.spanTo]
  | cons b rest =>
    have hnext : c.ahead? 1 = rest.head? := by simp [Cursor.ahead?, hrest, List.head?_eq_getElem?]
    simp only [Cursor.peek?, hrest, List.head?_cons, hnext, readToken]
    cases tokenClass b rest.head? with
    | number => exact hrest ▸ scanNumber_eq c
    | word | string | char | punctuator => exact hrest ▸ TokenClass.scan_eq _ c

lemma readNumeral_ok (h : readNumeral bytes = (.ok token, n)) :
    TokenClass.number.read bytes = (.ok token, n) ∧ bytes[n]?.any isWordByte = false := by
  rw [readNumeral] at h
  rcases hr : TokenClass.number.read bytes with ⟨kind | t, m⟩
  · simp [hr] at h
  · by_cases hspoiled : bytes[m]?.any isWordByte = true
    · simp [hr, hspoiled] at h
    · rw [hr] at h
      dsimp only at h
      rw [if_neg hspoiled] at h
      cases h
      exact ⟨rfl, Bool.not_eq_true _ ▸ hspoiled⟩

lemma readNumeral_append (h : readNumeral bytes = (.ok token, n)) (rest : List UInt8) :
    readNumeral (bytes ++ 10 :: rest) = (.ok token, n) := by
  obtain ⟨hr, hclean⟩ := readNumeral_ok h
  have hle := (TokenClass.read_ok hr).2.1
  have hstill : (bytes ++ 10 :: rest)[n]?.any isWordByte = false := by
    rcases Nat.lt_or_eq_of_le hle with hlt | rfl
    · rwa [List.getElem?_append_left hlt]
    · simp [isWordByte, isNondigit, isDigit]
  simp [readNumeral, TokenClass.read_append hr, hstill]

lemma exists_class (h : readToken bytes = (.ok token, n)) (hne : bytes ≠ []) :
    ∃ k : TokenClass, k.read bytes = (.ok token, n) := by
  cases bytes with
  | nil => contradiction
  | cons b rest =>
    rw [readToken] at h
    split at h
    · exact ⟨_, (readNumeral_ok h).1⟩
    · exact ⟨_, h⟩

lemma readToken_append (h : readToken bytes = (.ok token, n)) (hne : bytes ≠ []) (rest : List UInt8) :
    readToken (bytes ++ 10 :: rest) = (.ok token, n) := by
  cases bytes with
  | nil => contradiction
  | cons b bytes =>
    have hclass : tokenClass b (bytes ++ 10 :: rest).head? = tokenClass b bytes.head? := by
      cases bytes with
      | nil => simp [tokenClass, isDigit]
      | cons => rfl
    rw [List.cons_append, readToken, hclass]
    rw [readToken] at h
    split at h
    · exact readNumeral_append h rest
    · exact TokenClass.read_append h rest

/-- What a text begins with: a gap of some size, and a token, the end or an error of some size behind it. -/
structure Reading where
  gap : Nat
  result : Except ErrorKind Token
  size : Nat

namespace Reading

def behind (n : Nat) (r : Reading) : Reading := { r with gap := n + r.gap }

def span (r : Reading) (c : Cursor) : Span := (c.skip r.gap).spanTo (c.skip (r.gap + r.size))

lemma span_behind (n : Nat) (r : Reading) (c : Cursor) : (r.behind n).span c = r.span (c.skip n) := by
  simp [span, behind, Cursor.skip_skip, Nat.add_assoc]

end Reading

end

def readNext (bytes : List UInt8) : Reading :=
  match _h : front bytes with
  | .token => ⟨0, (readToken bytes).1, (readToken bytes).2⟩
  | .gap n => (readNext (bytes.drop n)).behind n
  | .unclosed => ⟨0, .error .unidentifiedToken, bytes.length⟩
termination_by bytes.length
decreasing_by all_goals
  have ⟨hn, hne⟩ := front_gap_pos _h
  have := List.length_pos_iff.mpr hne
  rw [List.length_drop]
  omega

section

variable {bytes : List UInt8} {token : Token} {n : Nat}

lemma readNext_of_token (h : front bytes = .token) :
    readNext bytes = ⟨0, (readToken bytes).1, (readToken bytes).2⟩ := by
  rw [readNext]
  split <;> simp_all

lemma readNext_of_gap (h : front bytes = .gap n) :
    readNext bytes = (readNext (bytes.drop n)).behind n := by
  rw [readNext]
  split <;> simp_all

lemma readNext_of_unclosed (h : front bytes = .unclosed) :
    readNext bytes = ⟨0, .error .unidentifiedToken, bytes.length⟩ := by
  rw [readNext]
  split <;> simp_all

end

lemma nextToken_eq (c : Cursor) : (nextToken c).1 = placed ((readNext c.rest).span c) (readNext c.rest).result ∧
    ((readNext c.rest).result.toBool = true →
      (nextToken c).2 = c.skip ((readNext c.rest).gap + (readNext c.rest).size)) := by
  rw [nextToken]
  fun_induction skipTrivia c with
  | case1 c hfront =>
    rw [readNext_of_token hfront]
    simp [scanToken_eq, settle, Reading.span, Cursor.skip]
  | case2 c n hfront ih =>
    rw [Cursor.rest_skip, Cursor.skip_skip, ← Nat.add_assoc] at ih
    rw [readNext_of_gap hfront, Reading.span_behind]
    cases hskip : skipTrivia (c.skip n) with
    | ok d => simpa [hskip, Reading.behind] using ih
    | error e =>
      simp only [hskip] at ih
      refine ⟨ih.1, fun hok => ?_⟩
      cases hresult : (readNext (c.rest.drop n)).result <;> simp_all [placed, Except.toBool, Reading.behind]
  | case3 c hfront =>
    rw [readNext_of_unclosed hfront]
    simp [Reading.span, placed, Cursor.skip, Except.toBool]

/-- A blank, a closed block comment or a line comment, in front of what follows it. A block comment ends
where its closing mark first stands, and a line comment runs up to a newline or the end. -/
inductive Trivia : List UInt8 → List UInt8 → Prop
  | blank {b : UInt8} {rest : List UInt8} : b ∈ [32, 9, 10, 13, 11, 12] → Trivia [b] rest
  | block {body rest : List UInt8} : ¬ [42, 47] <:+: body ++ [42] → Trivia (47 :: 42 :: body ++ [42, 47]) rest
  | line {body rest : List UInt8} : 10 ∉ body → rest = [] ∨ rest.head? = some 10 → Trivia (47 :: 47 :: body) rest

inductive Gap : List UInt8 → List UInt8 → Prop
  | nil {rest : List UInt8} : Gap [] rest
  | append {piece gap rest : List UInt8} : Trivia piece (gap ++ rest) → Gap gap rest → Gap (piece ++ gap) rest

lemma mem_of_isBlank {b : UInt8} (h : isBlank b = true) : b ∈ [32, 9, 10, 13, 11, 12] := by
  simp only [isBlank, Bool.or_eq_true, Bool.and_eq_true, beq_iff_eq, decide_eq_true_eq, UInt8.le_iff_toNat_le] at h
  simp only [List.mem_cons, List.not_mem_nil, or_false, ← UInt8.toNat_inj]
  simp only [← UInt8.toNat_inj] at h
  simp at h ⊢
  omega

lemma blockComment?_eq_some {bytes : List UInt8} {n : Nat} (h : blockComment? bytes = some n) :
    ∃ body rest, bytes = body ++ [42, 47] ++ rest ∧ n = body.length + 2 ∧ ¬ [42, 47] <:+: body ++ [42] := by
  induction bytes generalizing n with
  | nil => cases h
  | cons b bytes ih =>
    rw [blockComment?] at h
    split at h
    · rename_i hclose
      obtain ⟨rfl, hslash⟩ : b = 42 ∧ bytes.head? = some 47 := by simpa using hclose
      obtain ⟨rest, rfl⟩ := List.head?_eq_some_iff.mp hslash
      cases h
      exact ⟨[], rest, rfl, rfl, by decide⟩
    · rename_i hopen
      obtain ⟨m, hm, rfl⟩ := Option.map_eq_some_iff.mp h
      obtain ⟨body, rest, rfl, rfl, hfirst⟩ := ih hm
      refine ⟨b :: body, rest, rfl, rfl, fun hin => ?_⟩
      rw [List.cons_append, List.infix_cons_iff] at hin
      rcases hin with hin | hin
      · -- The closing mark would stand at the very front.
        refine hopen ?_
        cases body <;> simp_all [List.cons_prefix_cons]
      · exact hfirst hin

lemma front_gap {bytes : List UInt8} {n : Nat} (h : front bytes = .gap n) :
    ∃ piece rest, bytes = piece ++ rest ∧ n = piece.length ∧ Trivia piece rest := by
  cases bytes with
  | nil => cases h
  | cons b bytes =>
    rw [front] at h
    split at h
    · rename_i hblank
      cases h
      exact ⟨[b], bytes, rfl, rfl, .blank (mem_of_isBlank hblank)⟩
    · split at h
      · rename_i hopen
        obtain ⟨rfl, hstar⟩ : b = 47 ∧ bytes.head? = some 42 := by simpa using hopen
        obtain ⟨bytes, rfl⟩ := List.head?_eq_some_iff.mp hstar
        cases hclose : blockComment? bytes with
        | none => simp [hclose] at h
        | some m =>
          obtain ⟨body, rest, rfl, rfl, hfirst⟩ := blockComment?_eq_some hclose
          refine ⟨47 :: 42 :: body ++ [42, 47], rest, by simp, ?_, .block hfirst⟩
          rw [List.tail_cons, hclose] at h
          cases h
          simp
      · split at h
        · rename_i hopen
          obtain ⟨rfl, hslash⟩ : b = 47 ∧ bytes.head? = some 47 := by simpa using hopen
          obtain ⟨bytes, rfl⟩ := List.head?_eq_some_iff.mp hslash
          cases h
          refine ⟨47 :: 47 :: bytes.takeWhile (· != 10), bytes.dropWhile (· != 10), ?_, by simp, .line ?_ ?_⟩
          · simp [List.takeWhile_append_dropWhile]
          · intro hin
            simpa using List.mem_takeWhile_imp hin
          · cases hrest : bytes.dropWhile (· != 10) with
            | nil => exact Or.inl rfl
            | cons b rest =>
              have hstop := List.head_dropWhile_not (· != 10) (l := bytes) (by simp [hrest])
              simp only [hrest, List.head_cons, bne_eq_false_iff_eq] at hstop
              exact Or.inr (congrArg some hstop)
        · cases h

lemma readNext_gap (bytes : List UInt8) :
    ∃ gap rest, bytes = gap ++ rest ∧ (readNext bytes).gap = gap.length ∧ Gap gap rest := by
  fun_induction readNext bytes with
  | case1 bytes => exact ⟨[], bytes, rfl, rfl, .nil⟩
  | case2 bytes n hfront ih =>
    obtain ⟨piece, rest, rfl, rfl, hpiece⟩ := front_gap hfront
    rw [List.drop_left] at ih
    obtain ⟨gap, rest, rfl, hlength, hgap⟩ := ih
    refine ⟨piece ++ gap, rest, by simp, ?_, .append hpiece hgap⟩
    rw [List.length_append, List.drop_left, Reading.behind, hlength]
  | case3 bytes => exact ⟨[], bytes, rfl, rfl, .nil⟩

lemma readNext_gap_le (bytes : List UInt8) : (readNext bytes).gap ≤ bytes.length := by
  obtain ⟨gap, rest, hbytes, hlength, _⟩ := readNext_gap bytes
  rw [hlength, hbytes, List.length_append]
  exact Nat.le_add_right _ _

section

variable {bytes : List UInt8} {token : Token}

lemma readNext_ok (h : (readNext bytes).result = .ok token) :
    readToken (bytes.drop (readNext bytes).gap) = (.ok token, (readNext bytes).size) := by
  fun_induction readNext bytes with
  | case1 bytes hfront =>
    rw [List.drop_zero]
    exact Prod.ext h rfl
  | case2 bytes n hfront ih =>
    rw [Reading.behind, ← List.drop_drop]
    exact ih h
  | case3 => cases h

lemma readToken_ok {n : Nat} (h : readToken bytes = (.ok token, n)) (hne : bytes ≠ []) :
    0 < n ∧ n ≤ bytes.length ∧ token.kind ≠ .endMark := by
  obtain ⟨k, hk⟩ := exists_class h hne
  exact TokenClass.read_ok hk

lemma readNext_cases (h : (readNext bytes).result = .ok token) :
    (readNext bytes).gap = bytes.length ∧ (readNext bytes).size = 0 ∧ token = .endAt {} ∨
      bytes.drop (readNext bytes).gap ≠ [] ∧ 0 < (readNext bytes).size ∧
        (readNext bytes).gap + (readNext bytes).size ≤ bytes.length ∧ token.kind ≠ .endMark := by
  have hle := readNext_gap_le bytes
  have hread := readNext_ok h
  by_cases hne : bytes.drop (readNext bytes).gap = []
  · rw [hne, readToken] at hread
    obtain ⟨htoken, hsize⟩ := Prod.mk.inj hread
    have hge := List.drop_eq_nil_iff.mp hne
    exact Or.inl ⟨by omega, hsize.symm, (Except.ok.inj htoken).symm⟩
  · obtain ⟨hpos, hsize, hkind⟩ := readToken_ok hread hne
    rw [List.length_drop] at hsize
    exact Or.inr ⟨hne, hpos, by omega, hkind⟩

end

section

variable {fuel : Nat} {c : Cursor} {token : Token}

lemma lexFrom_of_error {kind : ErrorKind} (h : (readNext c.rest).result = .error kind) :
    lexFrom (fuel + 1) c = { error := some ⟨kind, (readNext c.rest).span c⟩ } := by
  have hnext := (nextToken_eq c).1
  rw [lexFrom]
  rcases hstep : nextToken c with ⟨result, stop⟩
  rw [hstep, h] at hnext
  cases hnext
  rfl

lemma lexFrom_of_ok (h : (readNext c.rest).result = .ok token) : lexFrom (fuel + 1) c =
    if token.kind = .endMark then { tokens := [{ token with span := (readNext c.rest).span c }] }
    else
      { tokens := { token with span := (readNext c.rest).span c } ::
          (lexFrom fuel (c.skip ((readNext c.rest).gap + (readNext c.rest).size))).tokens
        error := (lexFrom fuel (c.skip ((readNext c.rest).gap + (readNext c.rest).size))).error } := by
  obtain ⟨hnext, hstop⟩ := nextToken_eq c
  rw [lexFrom]
  rcases hstep : nextToken c with ⟨result, stop⟩
  rw [hstep, h] at hnext hstop
  cases hnext
  cases hstop rfl
  rfl

lemma lexFrom_of_end (h : (readNext c.rest).result = .ok (.endAt {})) :
    lexFrom (fuel + 1) c = { tokens := [{ Token.endAt {} with span := (readNext c.rest).span c }] } := by
  rw [lexFrom_of_ok h]
  rfl

lemma lexFrom_of_token (h : (readNext c.rest).result = .ok token) (hkind : token.kind ≠ .endMark) :
    lexFrom (fuel + 1) c =
      { tokens := { token with span := (readNext c.rest).span c } ::
          (lexFrom fuel (c.skip ((readNext c.rest).gap + (readNext c.rest).size))).tokens
        error := (lexFrom fuel (c.skip ((readNext c.rest).gap + (readNext c.rest).size))).error } := by
  rw [lexFrom_of_ok h, if_neg hkind]

lemma lexFrom_fuel {fuel' : Nat} (h : c.rest.length < fuel) (h' : c.rest.length < fuel') :
    lexFrom fuel c = lexFrom fuel' c := by
  induction fuel generalizing c fuel' with
  | zero => exact absurd h (Nat.not_lt_zero _)
  | succ fuel ih =>
    obtain ⟨fuel', rfl⟩ := Nat.exists_eq_succ_of_ne_zero (Nat.ne_of_gt (Nat.zero_lt_of_lt h'))
    cases hresult : (readNext c.rest).result with
    | error kind => rw [lexFrom_of_error hresult, lexFrom_of_error hresult]
    | ok token =>
      rcases readNext_cases hresult with ⟨_, _, rfl⟩ | ⟨_, hpos, hle, hkind⟩
      · rw [lexFrom_of_end hresult, lexFrom_of_end hresult]
      · have hrest : (c.skip ((readNext c.rest).gap + (readNext c.rest).size)).rest.length < c.rest.length := by
          rw [Cursor.rest_skip, List.length_drop]
          omega
        have hmore := ih (Nat.lt_of_lt_of_le hrest (Nat.le_of_lt_succ h)) (Nat.lt_of_lt_of_le hrest (Nat.le_of_lt_succ h'))
        rw [lexFrom_of_token hresult hkind, lexFrom_of_token hresult hkind, hmore]

end

lemma mem_lexFrom {fuel : Nat} {c : Cursor} {token : Token} (h : token ∈ (lexFrom fuel c).tokens) :
    token.kind = .endMark ∨ ∃ (k : TokenClass) (bytes : List UInt8) (n : Nat) (found : Token),
      k.read bytes = (.ok found, n) ∧ token = { found with span := token.span } := by
  induction fuel generalizing c with
  | zero => cases h
  | succ fuel ih =>
    cases hresult : (readNext c.rest).result with
    | error kind =>
      rw [lexFrom_of_error hresult] at h
      cases h
    | ok found =>
      rcases readNext_cases hresult with ⟨_, _, rfl⟩ | ⟨hne, _, _, hkind⟩
      · rw [lexFrom_of_end hresult] at h
        obtain rfl := List.mem_singleton.mp h
        exact Or.inl rfl
      · rw [lexFrom_of_token hresult hkind] at h
        rcases List.mem_cons.mp h with rfl | h
        · obtain ⟨k, hk⟩ := exists_class (readNext_ok hresult) hne
          exact Or.inr ⟨k, _, _, found, hk, rfl⟩
        · exact ih h

lemma tokenize_eq_ok {source : List UInt8} {tokens : List Token} :
    tokenize source = .ok tokens ↔ (lex source).error = none ∧ (lex source).tokens = tokens := by
  rw [tokenize]
  rcases lex source with ⟨found, _ | e⟩ <;> simp

lemma tokenize_single {source : List UInt8} {token : Token} (hfront : front source = .token)
    (hread : readToken source = (.ok token, source.length)) (hkind : token.kind ≠ .endMark) :
    ∃ span stop, tokenize source = .ok [{ token with span }, .endAt stop] := by
  let c := Cursor.ofBytes source
  let d := c.skip (0 + source.length)
  have hnext : readNext c.rest = ⟨0, .ok token, source.length⟩ :=
    (readNext_of_token hfront).trans (by rw [hread])
  have hend : readNext d.rest = ⟨0, .ok (.endAt {}), 0⟩ := by
    have hnil : d.rest = [] := by
      rw [Cursor.rest_skip, Nat.zero_add]
      exact List.drop_length
    rw [hnil]
    exact readNext_of_token rfl
  obtain ⟨n, hn⟩ : ∃ n, source.length = n + 1 := by
    refine Nat.exists_eq_add_one.mpr (List.length_pos_iff.mpr fun hnil => ?_)
    rw [hnil] at hread
    cases hread
    exact hkind rfl
  have hlex : lex source = { tokens := [{ token with span := c.spanTo d }, .endAt d.position] } := by
    have hrest : lexFrom source.length d = { tokens := [.endAt d.position] } := by
      rw [hn, lexFrom_of_end (congrArg Reading.result hend), hend]
      rfl
    rw [lex, lexFrom_of_token (congrArg Reading.result hnext) hkind, hnext]
    change Lexing.mk (_ :: (lexFrom source.length d).tokens) (lexFrom source.length d).error = _
    rw [hrest]
    rfl
  exact ⟨_, _, tokenize_eq_ok.mpr (by rw [hlex]; exact ⟨rfl, rfl⟩)⟩

end Ramify.C
