import Ramify.Proofs.C.Readings
import Ramify.Proofs.Text.Positions

namespace Ramify

namespace C

/-- Tokens and the bytes they were read from, behind other bytes of the text. -/
inductive Accounts : List UInt8 → List UInt8 → List Token → Prop
  | last {before gap : List UInt8} : Gap gap [] → Accounts before gap [.endAt (.behind (before ++ gap))]
  | cons {before gap lexeme rest : List UInt8} {token : Token} {tokens : List Token} :
      Gap gap (lexeme ++ rest) → lexeme ≠ [] → token.kind ≠ .endMark → token.text = Text.Utf8.decodeLossy lexeme →
      token.span = ⟨.behind (before ++ gap), .behind (before ++ gap ++ lexeme)⟩ →
      Accounts (before ++ gap ++ lexeme) rest tokens → Accounts before (gap ++ lexeme ++ rest) (token :: tokens)

lemma decodeLossy_ascii {bytes : List UInt8} (h : ∀ b ∈ bytes, b < 128) :
    Text.Utf8.decodeLossy bytes = asciiText bytes := by
  have hpieces : Text.Utf8.pieces bytes = (asciiChars bytes).map some := by
    induction bytes with
    | nil => rw [Text.Utf8.pieces]; rfl
    | cons b bytes ih =>
      have hb : b < 0x80 := h b (by simp)
      have hfirst : Text.Utf8.first b bytes = (some (Char.ofNat b.toNat), bytes) := by
        simp [Text.Utf8.first, Text.Utf8.lead?, hb, Text.Utf8.continuation]
      rw [Text.Utf8.pieces, hfirst, ih fun b hb => h b (by simp [hb])]
      rfl
  rw [Text.Utf8.decodeLossy, hpieces, asciiText, List.map_map]
  congr 1
  exact List.map_id _

namespace Recognizer

variable {σ κ : Type}

def Shows (r : Recognizer σ κ) : Prop :=
  ∀ {s : σ} {lexeme : List UInt8} {span : Span} {token : Token}, (∀ b ∈ lexeme, r.automaton.Reads b) →
    r.build s lexeme span = .ok token → token.text = Text.Utf8.decodeLossy lexeme

lemma Shows.read {r : Recognizer σ κ} (h : r.Shows) {bytes : List UInt8} {token : Token} {n : Nat}
    (hr : r.read bytes = (.ok token, n)) : token.text = Text.Utf8.decodeLossy (bytes.take n) := by
  obtain ⟨s, ho, hbuild⟩ := exists_build hr
  exact h (Automaton.outcome_reads ho) hbuild

lemma shows_ascii {r : Recognizer σ κ}
    (hascii : ∀ n < 128, ∀ condition ∈ r.automaton.conditions, condition.2 (UInt8.ofNat (128 + n)) = false)
    (hcopies : ∀ {s : σ} {lexeme : List UInt8} {span : Span} {token : Token},
      r.build s lexeme span = .ok token → token.text = asciiText lexeme) : r.Shows := by
  intro s lexeme span token hreads hbuild
  rw [hcopies hbuild, decodeLossy_ascii]
  intro b hb
  obtain ⟨condition, hmem, hholds⟩ := (hreads b hb).condition
  by_contra hlarge
  have hle : 128 ≤ b.toNat := by simpa [UInt8.lt_iff_toNat_lt] using hlarge
  have hlt := b.toNat_lt
  have hfalse := hascii (b.toNat - 128) (by omega) condition hmem
  rw [Nat.add_sub_cancel' hle, UInt8.ofNat_toNat, hholds] at hfalse
  cases hfalse

end Recognizer

lemma edges_ascii : ∀ n < 128,
    (∀ condition ∈ Word.recognizer.automaton.conditions, condition.2 (UInt8.ofNat (128 + n)) = false) ∧
    (∀ condition ∈ Numeral.recognizer.automaton.conditions, condition.2 (UInt8.ofNat (128 + n)) = false) ∧
    ∀ condition ∈ Punctuation.recognizer.automaton.conditions, condition.2 (UInt8.ofNat (128 + n)) = false := by
  decide +kernel

lemma Word.shows : Word.recognizer.Shows :=
  Recognizer.shows_ascii (fun n hn => (edges_ascii n hn).1) fun hbuild => by
    cases hbuild
    rfl

lemma Numeral.shows : Numeral.recognizer.Shows :=
  Recognizer.shows_ascii (fun n hn => (edges_ascii n hn).2.1) fun hbuild => by
    dsimp only [Numeral.recognizer] at hbuild
    split at hbuild
    · cases hbuild
      rfl
    · cases hbuild

lemma Punctuation.shows : Punctuation.recognizer.Shows :=
  Recognizer.shows_ascii (fun n hn => (edges_ascii n hn).2.2) fun {s} _ _ _ hbuild => by
    cases s with
    | kind => cases hbuild; rfl
    | start => cases hbuild
    | dotDot => cases hbuild

lemma Literal.string_shows : Literal.stringRecognizer.Shows := by
  intro s lexeme span token _ hbuild
  dsimp only [Literal.stringRecognizer] at hbuild
  cases hcontents : Literal.contents lexeme span with
  | error e => simp [hcontents, bind, Except.bind] at hbuild
  | ok bytes =>
    rw [hcontents] at hbuild
    cases hbuild
    rfl

lemma Literal.char_shows : Literal.charRecognizer.Shows := by
  intro s lexeme span token _ hbuild
  dsimp only [Literal.charRecognizer] at hbuild
  rcases hcontents : Literal.contents lexeme span with _ | _ | ⟨b, _ | _⟩ <;> rw [hcontents] at hbuild <;> cases hbuild
  rfl

lemma TokenClass.read_text {k : TokenClass} {bytes : List UInt8} {token : Token} {n : Nat}
    (h : k.read bytes = (.ok token, n)) : token.text = Text.Utf8.decodeLossy (bytes.take n) := by
  cases k with
  | word => exact Word.shows.read h
  | number => exact Numeral.shows.read h
  | string => exact Literal.string_shows.read h
  | char => exact Literal.char_shows.read h
  | punctuator => exact Punctuation.shows.read h

lemma lexFrom_accounts {fuel : Nat} {before : List UInt8} {c : Cursor} (hplace : c.position = .behind before)
    (hfuel : c.rest.length < fuel) (h : (lexFrom fuel c).error = none) :
    Accounts before c.rest (lexFrom fuel c).tokens := by
  induction fuel generalizing before c with
  | zero => exact absurd hfuel (Nat.not_lt_zero _)
  | succ fuel ih =>
    have hposition (n : Nat) : (c.skip n).position = .behind (before ++ c.rest.take n) := by
      rw [Cursor.position_skip, hplace, Position.foldl_after_behind]
    cases hresult : (readNext c.rest).result with
    | error kind =>
      rw [lexFrom_of_error hresult] at h
      cases h
    | ok token =>
      obtain ⟨gap, rest, hrest, hlength, hgap⟩ := readNext_gap c.rest
      have htake : c.rest.take gap.length = gap := by rw [hrest, List.take_left]
      rcases readNext_cases hresult with ⟨hend, hsize, rfl⟩ | ⟨hne, hpos, hle, hkind⟩
      · rw [lexFrom_of_end hresult]
        have hnil : rest = [] := by
          have := congrArg List.length hrest
          rw [List.length_append, ← hend, hlength] at this
          exact List.eq_nil_of_length_eq_zero (by omega)
        rw [hnil] at hgap hrest
        rw [List.append_nil] at hrest
        simp only [Token.endAt, Reading.span, Cursor.spanTo, hposition, hsize, hlength, Nat.add_zero, htake]
        rw [hrest]
        exact .last hgap
      · have hread := readNext_ok hresult
        have hdrop : c.rest.drop gap.length = rest := by rw [hrest, List.drop_left]
        rw [hlength, hdrop] at hread hne
        obtain ⟨k, hk⟩ := exists_class hread hne
        rw [lexFrom_of_token hresult hkind] at h ⊢
        -- The lexeme, and the bytes up to its end.
        generalize hn : (readNext c.rest).size = n at *
        have hbytes : c.rest = gap ++ rest.take n ++ rest.drop n := by
          rw [List.append_assoc, List.take_append_drop, hrest]
        have hupto : c.rest.take (gap.length + n) = gap ++ rest.take n := by
          rw [hrest, List.take_length_add_append]
        have hbehind : (c.skip (gap.length + n)).position = .behind (before ++ gap ++ rest.take n) := by
          rw [hposition, hupto, List.append_assoc]
        have hleft : (c.skip (gap.length + n)).rest = rest.drop n := by
          rw [Cursor.rest_skip, hrest, ← List.drop_drop, List.drop_left]
        have hspan : (readNext c.rest).span c = ⟨.behind (before ++ gap), .behind (before ++ gap ++ rest.take n)⟩ := by
          rw [Reading.span, hlength, hn, Cursor.spanTo, hbehind, hposition, htake]
        have hmore := ih hbehind (by rw [Cursor.rest_skip, List.length_drop]; omega) (hlength ▸ h)
        rw [hleft] at hmore
        have htext := TokenClass.read_text hk
        rw [hspan, hlength, hbytes]
        refine .cons (by rwa [List.take_append_drop]) ?_ hkind htext rfl hmore
        exact fun hnil => (List.take_eq_nil_iff.mp hnil).elim (Nat.ne_of_gt hpos) hne

/-- Every text is read to its end or to an error, however many steps are allowed beyond its length, and the
tokens of one that is read account for every byte of it. -/
theorem tokenize_accounts (source : List UInt8) :
    (∀ fuel, source.length < fuel → lexFrom fuel (.ofBytes source) = lex source) ∧
      ((∃ e, tokenize source = .error e) ∨ ∃ tokens, tokenize source = .ok tokens ∧ Accounts [] source tokens) := by
  refine ⟨fun fuel hfuel => lexFrom_fuel hfuel (Nat.lt_succ_self _), ?_⟩
  cases htokens : tokenize source with
  | error e => exact Or.inl ⟨e, rfl⟩
  | ok tokens =>
    obtain ⟨herror, rfl⟩ := tokenize_eq_ok.mp htokens
    exact Or.inr ⟨_, rfl, lexFrom_accounts rfl (Nat.lt_succ_self _) herror⟩

end C

end Ramify
