import Ramify.Proofs.C.IntegerLexemes
import Ramify.Proofs.C.Readings

namespace Ramify.C.Numeral

variable {s : State} {lexeme digits : List UInt8} {n : ℕ} {type : IntegerType}

def Fractional (lexeme : List UInt8) : Prop :=
  46 ∈ lexeme ∨ (∃ b ∈ lexeme, either 'p' 'P' b = true) ∨
    (∃ b ∈ lexeme, either 'e' 'E' b = true) ∧ ∀ x ∈ lexeme[1]?, either 'x' 'X' x = false

lemma Whole.bytes (h : Whole digits) : (∀ b ∈ digits, isDigit b = true) ∨
    (∃ x, digits[1]? = some x ∧ either 'x' 'X' x = true) ∧
      ∀ b ∈ digits, isHexDigit b = true ∨ either 'x' 'X' b = true := by
  obtain ⟨s, hshape, hs, hne⟩ := h
  cases hshape with
  | start => simp
  | zero => exact Or.inl (by simp; rfl)
  | decimal hb hdigits => exact Or.inl hdigits
  | octal hsome hdigits => exact Or.inl (List.forall_mem_cons.mpr ⟨rfl, hdigits⟩)
  | hexPrefix => cases hs
  | @hex x digits hx hsome hdigits =>
    exact Or.inr ⟨⟨x, rfl, hx⟩, List.forall_mem_cons.mpr ⟨Or.inl rfl,
      List.forall_mem_cons.mpr ⟨Or.inr hx, fun d hd => Or.inl (hdigits d hd)⟩⟩⟩
  | suffix => exact absurd rfl hne

lemma Denotes.not_fractional (h : Denotes lexeme n type) : ¬ Fractional lexeme := by
  obtain ⟨digits, suffix, rfl, hdigits, htype⟩ := h
  have hbyte : ∀ b ∈ digits ++ suffix, isHexDigit b = true ∨ either 'x' 'X' b = true ∨ isSuffixByte b = true := by
    intro b hb
    rcases List.mem_append.mp hb with hb | hb
    · rcases hdigits.whole.bytes with hall | ⟨_, hall⟩
      · exact Or.inl (isHexDigit_of_isDigit (hall b hb))
      · exact (hall b hb).imp_right Or.inl
    · exact Or.inr (Or.inr (htype.isSuffixByte b hb))
  have habsent {b : UInt8} (hb : b ∈ digits ++ suffix) : b ≠ 46 ∧ b ≠ 112 ∧ b ≠ 80 := by
    refine ⟨?_, ?_, ?_⟩ <;> rintro rfl <;> have := hbyte _ hb <;> revert this <;> decide
  rintro (hpoint | ⟨b, hb, hp⟩ | ⟨⟨b, hb, he⟩, hx⟩)
  · exact (habsent hpoint).1 rfl
  · rcases eq_of_either hp with rfl | rfl
    · exact (habsent hb).2.1 rfl
    · exact (habsent hb).2.2 rfl
  · rcases hdigits.whole.bytes with hall | ⟨⟨x, hsecond, hprefix⟩, _⟩
    · have hdecimal : isDigit b = true ∨ isSuffixByte b = true :=
        (List.mem_append.mp hb).imp (hall b) (htype.isSuffixByte b)
      rcases eq_of_either he with rfl | rfl <;> revert hdecimal <;> decide
    · have hat : (digits ++ suffix)[1]? = some x := by
        rw [List.getElem?_append_left (List.getElem?_eq_some_iff.mp hsecond).1, hsecond]
      rw [hx x hat] at hprefix
      cases hprefix

section

variable {c stop : Cursor} {token : Token}

lemma scan_of_furthest (h : automaton.Furthest c.rest lexeme s) : recognizer.scan c =
    (if accepts s then recognizer.build s lexeme (c.spanTo (c.skip lexeme.length))
      else .error ⟨.unidentifiedToken, c.spanTo (c.skip lexeme.length)⟩, c.skip lexeme.length) :=
  Recognizer.scan_of_furthest (r := recognizer) h (fun _ => rfl) rfl

lemma accepts_of_isInteger (h : isInteger s = true) : accepts s = true := by
  cases s <;> first | rfl | cases h

lemma build_integer (hs : isInteger s = true) (span : Span) : recognizer.build s lexeme span =
    match integerValue? (asciiChars lexeme) with
    | some value => .ok ⟨.integer, asciiText lexeme, span, some value⟩
    | none => .error ⟨.unidentifiedToken, span⟩ := by
  simp only [recognizer, hs, if_true]
  rfl

lemma build_kind (hs : isInteger s = false) {span : Span} (h : recognizer.build s lexeme span = .ok token) :
    token.kind = .floating := by
  simp only [recognizer, hs] at h
  cases hvalue : floatValue? (asciiChars lexeme) with
  | none => simp [hvalue] at h
  | some value =>
    simp only [hvalue] at h
    cases h
    rfl

lemma Denotes.isInteger {n : ℕ} {type : IntegerType} (h : Denotes lexeme n type)
    (hpath : automaton.Path .start lexeme s) : Numeral.isInteger s = true := by
  obtain ⟨digits, suffix, rfl, hdigits, htype⟩ := h
  obtain ⟨t, hshape, ht⟩ := hdigits.whole.shape htype.isSuffixByte
  rwa [hpath.unique hshape.path]

lemma scan_integer_iff : recognizer.scan c = (.ok token, stop) ∧ token.kind = .integer ↔
    ∃ lexeme s n type, automaton.Furthest c.rest lexeme s ∧ Denotes lexeme n type ∧ n ≤ type.max ∧
      stop = c.skip lexeme.length ∧ token = ⟨.integer, asciiText lexeme, c.spanTo stop, some (.int n type)⟩ := by
  constructor
  · rintro ⟨hscan, hkind⟩
    obtain ⟨lexeme, s, hfurthest⟩ := automaton.exists_furthest c.rest
    rw [scan_of_furthest hfurthest] at hscan
    obtain ⟨hresult, rfl⟩ := Prod.mk.inj hscan
    have hbuild : recognizer.build s lexeme (c.spanTo (c.skip lexeme.length)) = .ok token := by
      split at hresult
      · exact hresult
      · cases hresult
    have hs : isInteger s = true := by
      by_contra hs
      rw [build_kind (Bool.not_eq_true _ ▸ hs) hbuild] at hkind
      cases hkind
    rw [build_integer hs] at hbuild
    split at hbuild
    · rename_i value hvalue
      have hshape := shape_of_path hfurthest.path (isPart_of_isInteger hs)
      obtain ⟨n, type, hdenotes, hle, rfl⟩ := (integerValue?_eq_some hshape hs).mp hvalue
      exact ⟨lexeme, s, n, type, hfurthest, hdenotes, hle, rfl, (Except.ok.inj hbuild).symm⟩
    · cases hbuild
  · rintro ⟨lexeme, s, n, type, hfurthest, hdenotes, hle, rfl, rfl⟩
    have hs := hdenotes.isInteger hfurthest.path
    have hshape := shape_of_path hfurthest.path (isPart_of_isInteger hs)
    have hvalue := (integerValue?_eq_some hshape hs).mpr ⟨n, type, hdenotes, hle, rfl⟩
    rw [scan_of_furthest hfurthest, if_pos (accepts_of_isInteger hs), build_integer hs, hvalue]
    exact ⟨rfl, rfl⟩

lemma scan_integer_refused (hfurthest : automaton.Furthest c.rest lexeme s) (hs : isInteger s = true)
    (hnone : ∀ n type, Denotes lexeme n type → type.max < n) :
    recognizer.scan c = (.error ⟨.unidentifiedToken, c.spanTo (c.skip lexeme.length)⟩, c.skip lexeme.length) := by
  have hshape := shape_of_path hfurthest.path (isPart_of_isInteger hs)
  have hvalue : integerValue? (asciiChars lexeme) = none := by
    by_contra hsome
    obtain ⟨value, hvalue⟩ := Option.ne_none_iff_exists'.mp hsome
    obtain ⟨n, type, hdenotes, hle, _⟩ := (integerValue?_eq_some hshape hs).mp hvalue
    exact absurd hle (Nat.not_le_of_lt (hnone n type hdenotes))
  rw [scan_of_furthest hfurthest, if_pos (accepts_of_isInteger hs), build_integer hs, hvalue]

lemma build_error {e : LexError} {span : Span} (h : recognizer.build s lexeme span = .error e) :
    e = ⟨.unidentifiedToken, span⟩ := by
  dsimp only [recognizer] at h
  split at h
  · cases h
  · exact (Except.error.inj h).symm

lemma nextToken_spoiled {d : Cursor} {b : UInt8} (hgap : skipTrivia c = .ok d) (hb : d.peek? = some b)
    (hclass : tokenClass b (d.ahead? 1) = .number) (hfurthest : automaton.Furthest d.rest lexeme s)
    (hword : ∃ a ∈ d.rest[lexeme.length]?, isWordByte a = true) :
    ∃ stop, nextToken c = (.error ⟨.unidentifiedToken, d.spanTo stop⟩, stop) := by
  obtain ⟨a, ha, hword⟩ := hword
  have hspoiled : (d.skip lexeme.length).peek?.any isWordByte = true := by
    simp [Cursor.peek?, Cursor.rest_skip, List.head?_drop, Option.mem_def.mp ha, hword]
  have hnext : nextToken c = scanNumber d := by
    rw [nextToken, hgap]
    simp only [scanToken, hb, hclass]
  rw [hnext, scanNumber, TokenClass.scan, scan_of_furthest hfurthest]
  by_cases haccepts : accepts s = true
  · rw [if_pos haccepts]
    cases hbuild : recognizer.build s lexeme (d.spanTo (d.skip lexeme.length)) with
    | error e =>
      obtain rfl := build_error hbuild
      exact ⟨_, rfl⟩
    | ok token =>
      simp only [if_pos hspoiled]
      exact ⟨_, rfl⟩
  · rw [if_neg haccepts]
    exact ⟨_, rfl⟩

end

end Ramify.C.Numeral

namespace Ramify.C

variable {k : TokenClass} {bytes : List UInt8} {token : Token} {n : ℕ}

lemma TokenClass.read_number (h : k.read bytes = (.ok token, n))
    (hkind : token.kind = .integer ∨ token.kind = .floating) : k = .number := by
  cases k with
  | number => rfl
  | word =>
    obtain ⟨s, _, hbuild⟩ := Recognizer.exists_build h
    obtain rfl := Except.ok.inj hbuild
    dsimp only at hkind
    split at hkind <;> simp at hkind
  | string =>
    obtain ⟨s, _, hbuild⟩ := Recognizer.exists_build h
    dsimp only [Literal.stringRecognizer] at hbuild
    cases hcontents : Literal.contents (bytes.take n) {} with
    | error e => simp [hcontents, bind, Except.bind] at hbuild
    | ok value =>
      rw [hcontents] at hbuild
      obtain rfl := Except.ok.inj hbuild
      simp at hkind
  | char =>
    obtain ⟨s, _, hbuild⟩ := Recognizer.exists_build h
    dsimp only [Literal.charRecognizer] at hbuild
    rcases hcontents : Literal.contents (bytes.take n) {} with _ | _ | ⟨b, _ | _⟩ <;> rw [hcontents] at hbuild <;>
      cases hbuild
    simp at hkind
  | punctuator =>
    obtain ⟨s, _, hbuild⟩ := Recognizer.exists_build h
    cases s with
    | kind p =>
      obtain rfl := Except.ok.inj hbuild
      simp at hkind
    | start => cases hbuild
    | dotDot => cases hbuild

lemma TokenClass.scan_number {c stop : Cursor} (h : k.scan c = (.ok token, stop))
    (hkind : token.kind = .integer ∨ token.kind = .floating) : k = .number := by
  rw [scan_eq, settle] at h
  obtain ⟨hresult, _⟩ := Prod.mk.inj h
  rcases hread : k.read c.rest with ⟨kind | found, n⟩
  · simp [hread, placed] at hresult
  · rw [hread] at hresult
    obtain rfl := Except.ok.inj hresult
    exact read_number hread hkind

lemma scanToken_number {c stop : Cursor} (h : scanToken c = (.ok token, stop))
    (hkind : token.kind = .integer ∨ token.kind = .floating) :
    Numeral.recognizer.scan c = (.ok token, stop) ∧ ∀ b ∈ stop.peek?, isWordByte b = false := by
  rw [scanToken] at h
  split at h
  · cases h
    simp [Token.endAt] at hkind
  · split at h
    · rw [scanNumber, TokenClass.scan] at h
      rcases hscan : Numeral.recognizer.scan c with ⟨e | t, d⟩
      · simp [hscan] at h
      · simp only [hscan] at h
        split at h
        · cases h
        · rename_i hclean
          cases h
          refine ⟨rfl, fun b hb => ?_⟩
          simpa [Option.mem_def.mp hb] using hclean
    · rename_i hother
      exact absurd (TokenClass.scan_number h hkind) hother

lemma mem_lexFrom_number {fuel : ℕ} {c : Cursor} (h : token ∈ (lexFrom fuel c).tokens)
    (hkind : token.kind = .integer ∨ token.kind = .floating) : ∃ before stop,
    Numeral.recognizer.scan (c.skip before) = (.ok token, stop) ∧ ∀ b ∈ stop.peek?, isWordByte b = false := by
  induction fuel generalizing c with
  | zero => cases h
  | succ fuel ih =>
    rw [lexFrom] at h
    rcases hnext : nextToken c with ⟨e | t, stop⟩
    · rw [hnext] at h
      cases h
    · rw [hnext] at h
      dsimp only at h
      obtain ⟨before, hscan⟩ := nextToken_ok hnext
      have htail : token = t ∨ token ∈ (lexFrom fuel stop).tokens ∧ t.kind ≠ .endMark := by
        split at h
        · exact Or.inl (List.mem_singleton.mp h)
        · exact (List.mem_cons.mp h).imp_right fun h => ⟨h, ‹_›⟩
      -- All tokens but the end mark take bytes, so what is found behind one is further on in the text.
      rcases htail with rfl | ⟨hmem, hmark⟩
      · exact ⟨before, stop, scanToken_number hscan hkind⟩
      · rcases scanToken_ok hscan with rfl | ⟨_, _, size, _, _, rfl⟩
        · exact absurd rfl hmark
        · obtain ⟨after, found⟩ := ih hmem
          refine ⟨before + size + after, ?_⟩
          rwa [← Cursor.skip_skip, ← Cursor.skip_skip]

/-- A scan makes an integer constant exactly when the longest prefix along which the automaton can move is a
numeral with a suffix, whose number fits the type that the suffix selects; the constant has this number and
type. Where the automaton stops in a state of integers and this is not so, the text is not identified, and a
prefix with a fraction or an exponent is no integer. In a text a letter, digit or underscore directly behind a
number is an error, so none stands there where the text is read. -/
theorem integer_constants :
    (∀ c token stop, Numeral.recognizer.scan c = (.ok token, stop) ∧ token.kind = .integer ↔
      ∃ lexeme s n type, Numeral.automaton.Furthest c.rest lexeme s ∧ Numeral.Denotes lexeme n type ∧ n ≤ type.max ∧
        stop = c.skip lexeme.length ∧ token = ⟨.integer, asciiText lexeme, c.spanTo stop, some (.int n type)⟩) ∧
    (∀ c lexeme s, Numeral.automaton.Furthest c.rest lexeme s → Numeral.isInteger s = true →
      (∀ n type, Numeral.Denotes lexeme n type → type.max < n) → Numeral.recognizer.scan c =
        (.error ⟨.unidentifiedToken, c.spanTo (c.skip lexeme.length)⟩, c.skip lexeme.length)) ∧
    (∀ c lexeme s, Numeral.automaton.Furthest c.rest lexeme s → Numeral.Fractional lexeme →
      ∀ token stop, Numeral.recognizer.scan c = (.ok token, stop) → token.kind ≠ .integer) ∧
    (∀ c d b lexeme s, skipTrivia c = .ok d → d.peek? = some b → tokenClass b (d.ahead? 1) = .number →
      Numeral.automaton.Furthest d.rest lexeme s → (∃ a ∈ d.rest[lexeme.length]?, isWordByte a = true) →
      ∃ stop, nextToken c = (.error ⟨.unidentifiedToken, d.spanTo stop⟩, stop)) ∧
    ∀ source tokens, tokenize source = .ok tokens → ∀ token ∈ tokens, token.kind = .integer ∨ token.kind = .floating →
      ∃ before stop, Numeral.recognizer.scan ((Cursor.ofBytes source).skip before) = (.ok token, stop) ∧
        ∀ b ∈ stop.peek?, isWordByte b = false := by
  refine ⟨fun c token stop => Numeral.scan_integer_iff, fun c lexeme s => Numeral.scan_integer_refused,
    fun c lexeme s hfurthest hfractional token stop hscan hkind => ?_,
    fun c d b lexeme s => Numeral.nextToken_spoiled, fun source tokens hsource token hmem hkind => ?_⟩
  · obtain ⟨lexeme', s', n, type, hfurthest', hdenotes, _⟩ := Numeral.scan_integer_iff.mp ⟨hscan, hkind⟩
    obtain ⟨rfl, rfl⟩ := hfurthest.unique hfurthest'
    exact hdenotes.not_fractional hfractional
  · obtain ⟨_, rfl⟩ := tokenize_eq_ok.mp hsource
    exact mem_lexFrom_number hmem hkind

theorem integer_constants_samples :
    Numeral.recognizer.scan (.ofBytes [48, 120, 49, 70, 117]) =
      (.ok ⟨.integer, "0x1Fu", ⟨⟨1, 1⟩, ⟨1, 6⟩⟩, some (.int 31 .u32)⟩,
        (Cursor.ofBytes [48, 120, 49, 70, 117]).skip 5) ∧
    Numeral.recognizer.scan (.ofBytes [48, 56]) =
      (.error ⟨.unidentifiedToken, ⟨⟨1, 1⟩, ⟨1, 3⟩⟩⟩, (Cursor.ofBytes [48, 56]).skip 2) ∧
    (∃ token stop, Numeral.recognizer.scan (.ofBytes [48, 46]) = (.ok token, stop) ∧ token.kind ≠ .integer) ∧
    (∃ e stop, nextToken (.ofBytes [49, 50, 97, 98]) = (.error e, stop) ∧ e.kind = .unidentifiedToken) ∧
    ∃ token stop before, tokenize [55] = .ok [token, .endAt ⟨1, 2⟩] ∧
      Numeral.recognizer.scan ((Cursor.ofBytes [55]).skip before) = (.ok token, stop) := by
  refine ⟨?_, ?_, ?_, ?_, ?_⟩
  · refine ((integer_constants.1 (.ofBytes [48, 120, 49, 70, 117]) _ _).mpr ⟨[48, 120, 49, 70, 117], .intSuffix, 31,
      .u32, ⟨?_, [], rfl, by simp⟩, ?_, by decide, rfl, rfl⟩).1
    · exact .cons rfl (.cons rfl (.cons rfl (.cons rfl (.cons rfl .nil))))
    · refine ⟨[48, 120, 49, 70], [117], rfl, .hex rfl (by simp) ?_, .unsigned rfl⟩
      exact positional_hex_iff.mpr ⟨by simp; decide, rfl⟩
  · refine integer_constants.2.1 (.ofBytes [48, 56]) [48, 56] .octal ⟨?_, [], rfl, by simp⟩ rfl ?_
    · exact .cons rfl (.cons rfl .nil)
    intro n type hdenotes
    have hwhole : Numeral.Whole [48, 56] := ⟨.octal, .octal (by simp) (by simp; decide), rfl, by simp⟩
    have hdigits := ((hwhole.denotes_iff (List.forall_mem_nil _)).mp hdenotes).1
    cases hdigits with
    | decimal hb => exact absurd rfl hb
    | octal _ hplaces =>
      have := (positional_octal_iff.mp hplaces).1 56 (by simp)
      cases this
    | hex hx => cases hx
  · let c := Cursor.ofBytes [48, 46]
    have hscan : Numeral.recognizer.scan c =
        (.ok ⟨.floating, "0.", ⟨⟨1, 1⟩, ⟨1, 3⟩⟩, some (.float .zero .f64)⟩, c.skip 2) := by
      decide +kernel
    refine ⟨_, _, hscan, integer_constants.2.2.1 c [48, 46] .fraction ?_ (Or.inl (by simp)) _ _ hscan⟩
    exact ⟨.cons rfl (.cons rfl .nil), [], rfl, by simp⟩
  · let c := Cursor.ofBytes [49, 50, 97, 98]
    have hfurthest : Numeral.automaton.Furthest c.rest [49, 50] .decimal :=
      ⟨.cons rfl (.cons rfl .nil), [97, 98], rfl, by rintro _ ⟨⟩ t h; cases h⟩
    obtain ⟨stop, hnext⟩ := integer_constants.2.2.2.1 c c 49 _ _ (by decide +kernel) rfl rfl hfurthest ⟨97, rfl, rfl⟩
    exact ⟨_, stop, hnext, rfl⟩
  · let token : Token := ⟨.integer, "7", ⟨⟨1, 1⟩, ⟨1, 2⟩⟩, some (.int 7 .i32)⟩
    have hsource : tokenize [55] = .ok [token, .endAt ⟨1, 2⟩] := by decide +kernel
    obtain ⟨before, stop, hscan, _⟩ := integer_constants.2.2.2.2 _ _ hsource token (by simp) (Or.inl rfl)
    exact ⟨token, stop, before, hsource, hscan⟩

end Ramify.C
