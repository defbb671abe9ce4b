import Ramify.C.Lexer
import Ramify.Proofs.Text.Cursors

namespace Ramify.C

inductive Laid : Position → List Token → Prop
  | last {p q : Position} {token : Token} : p ≤ q → token.kind = .endMark → token.span = .point q → Laid p [token]
  | cons {p : Position} {token : Token} {rest : List Token} : p ≤ token.span.start →
      token.span.start < token.span.stop → token.kind ≠ .endMark → Laid token.span.stop rest → Laid p (token :: rest)

namespace Laid

variable {p : Position} {tokens : List Token} {i j : Nat} {a b : Token}

lemma pos (h : Laid p tokens) : 0 < tokens.length := by
  cases h <;> exact Nat.succ_pos _

lemma endMark_iff (h : Laid p tokens) (ha : tokens[i]? = some a) : a.kind = .endMark ↔ i + 1 = tokens.length := by
  induction h generalizing i with
  | last _ hkind _ =>
    cases i with
    | zero =>
      cases ha
      exact iff_of_true hkind rfl
    | succ i => cases ha
  | cons _ _ hkind hrest ih =>
    cases i with
    | zero =>
      cases ha
      have hpos := hrest.pos
      exact iff_of_false hkind (by rw [List.length_cons]; omega)
    | succ i => rw [ih ha, List.length_cons, Nat.add_right_cancel_iff]

lemma start_le_stop (h : Laid p tokens) (ha : tokens[i]? = some a) : p ≤ a.span.start ∧ a.span.start ≤ a.span.stop := by
  induction h generalizing i with
  | last hpq _ hspan =>
    cases i with
    | zero =>
      cases ha
      rw [hspan]
      exact ⟨hpq, le_refl _⟩
    | succ i => cases ha
  | cons hp hspan _ _ ih =>
    cases i with
    | zero =>
      cases ha
      exact ⟨hp, hspan.le⟩
    | succ i => exact ⟨(hp.trans hspan.le).trans (ih ha).1, (ih ha).2⟩

lemma start_lt_stop (h : Laid p tokens) (ha : tokens[i]? = some a) (hi : i + 1 < tokens.length) :
    a.span.start < a.span.stop := by
  induction h generalizing i with
  | last => exact absurd hi (Nat.not_lt.mpr (Nat.le_add_left _ _))
  | cons _ hspan _ _ ih =>
    cases i with
    | zero =>
      cases ha
      exact hspan
    | succ i => exact ih ha (Nat.lt_of_succ_lt_succ hi)

lemma stop_le_start (h : Laid p tokens) (ha : tokens[i]? = some a) (hb : tokens[j]? = some b) (hij : i < j) :
    a.span.stop ≤ b.span.start := by
  induction h generalizing i j with
  | last =>
    cases j with
    | zero => cases hij
    | succ j => cases hb
  | cons _ _ _ hrest ih =>
    obtain ⟨j, rfl⟩ := Nat.exists_eq_succ_of_ne_zero (Nat.ne_of_gt (Nat.zero_lt_of_lt hij))
    cases i with
    | zero =>
      cases ha
      exact (hrest.start_le_stop hb).1
    | succ i => exact ih ha hb (Nat.lt_of_succ_lt_succ hij)

end Laid

structure Spaced (tokens : Array Token) : Prop where
  start_lt_stop : ∀ {i : Nat} {a : Token}, tokens[i]? = some a → i + 1 < tokens.size → a.span.start < a.span.stop
  stop_le_start : ∀ {i j : Nat} {a b : Token}, tokens[i]? = some a → tokens[j]? = some b → i < j →
    a.span.stop ≤ b.span.start

lemma Spaced.stop_le_stop {tokens : Array Token} (h : Spaced tokens) {i j : Nat} {a b : Token}
    (ha : tokens[i]? = some a) (hb : tokens[j]? = some b) (hij : i < j) (hj : j + 1 < tokens.size) :
    a.span.stop ≤ b.span.stop :=
  (h.stop_le_start ha hb hij).trans (h.start_lt_stop hb hj).le

lemma Laid.spaced {p : Position} {tokens : List Token} (h : Laid p tokens) : Spaced tokens.toArray where
  start_lt_stop ha hi := h.start_lt_stop (by rwa [List.getElem?_toArray] at ha) hi
  stop_le_start ha hb hij :=
    h.stop_le_start (by rwa [List.getElem?_toArray] at ha) (by rwa [List.getElem?_toArray] at hb) hij

def Taken (c : Cursor) (token : Token) (stop : Cursor) : Prop :=
  token.kind ≠ .endMark ∧ token.span = c.spanTo stop ∧ ∃ n, 0 < n ∧ n ≤ c.rest.length ∧ stop = c.skip n

namespace Recognizer

variable {σ κ : Type}

structure Marks (r : Recognizer σ κ) : Prop where
  start : r.automaton.accepts r.automaton.start = false
  build : ∀ {s : σ} {lexeme : List UInt8} {span : Span} {token : Token}, r.build s lexeme span = .ok token →
    token.kind ≠ .endMark ∧ token.span = span

lemma Marks.taken {r : Recognizer σ κ} (h : r.Marks) {c stop : Cursor} {token : Token}
    (hs : r.scan c = (.ok token, stop)) : Taken c token stop := by
  rw [scan] at hs
  rcases hrun : r.automaton.run c with ⟨_ | s, c'⟩
  · rw [hrun] at hs
    cases hs
  · rw [hrun] at hs
    obtain ⟨hbuild, rfl⟩ := Prod.mk.inj hs
    obtain ⟨hkind, hspan⟩ := h.build hbuild
    exact ⟨hkind, hspan, Automaton.run_ok h.start hrun⟩

end Recognizer

lemma Word.marks : Word.recognizer.Marks where
  start := rfl
  build := by
    intro s lexeme span token h
    obtain rfl := Except.ok.inj h
    refine ⟨?_, rfl⟩
    dsimp only
    split <;> exact nofun

lemma Numeral.marks : Numeral.recognizer.Marks where
  start := rfl
  build := by
    intro s lexeme span token h
    dsimp only [Numeral.recognizer] at h
    split at h
    · cases h
      refine ⟨?_, rfl⟩
      dsimp only
      split <;> exact nofun
    · cases h

lemma Literal.string_marks : Literal.stringRecognizer.Marks where
  start := rfl
  build := by
    intro s lexeme span token h
    dsimp only [Literal.stringRecognizer] at h
    cases hc : Literal.contents lexeme span with
    | error e =>
      rw [hc] at h
      cases h
    | ok bytes =>
      rw [hc] at h
      cases h
      exact ⟨nofun, rfl⟩

lemma Literal.char_marks : Literal.charRecognizer.Marks where
  start := rfl
  build := by
    intro s lexeme span token h
    dsimp only [Literal.charRecognizer] at h
    cases hc : Literal.contents lexeme span with
    | error e =>
      rw [hc] at h
      cases h
    | ok bytes =>
      rw [hc] at h
      cases bytes with
      | nil => cases h
      | cons b rest =>
        cases rest with
        | nil =>
          cases h
          exact ⟨nofun, rfl⟩
        | cons => cases h

lemma Punctuation.marks : Punctuation.recognizer.Marks where
  start := rfl
  build := by
    intro s _ _ token h
    cases s with
    | kind p =>
      obtain rfl := Except.ok.inj h
      exact ⟨nofun, rfl⟩
    | start => cases h
    | dotDot => cases h

lemma TokenClass.taken {k : TokenClass} {c stop : Cursor} {token : Token} (h : k.scan c = (.ok token, stop)) :
    Taken c token stop := by
  cases k with
  | word => exact Word.marks.taken h
  | number => exact Numeral.marks.taken h
  | string => exact Literal.string_marks.taken h
  | char => exact Literal.char_marks.taken h
  | punctuator => exact Punctuation.marks.taken h

lemma scanNumber_taken {c stop : Cursor} {token : Token} (h : scanNumber c = (.ok token, stop)) :
    Taken c token stop := by
  rw [scanNumber] at h
  rcases hs : TokenClass.number.scan c with ⟨_ | t, c'⟩
  · rw [hs] at h
    cases h
  · rw [hs] at h
    dsimp only at h
    split at h
    · cases h
    · cases h
      exact TokenClass.taken hs

lemma scanToken_ok {c stop : Cursor} {token : Token} (h : scanToken c = (.ok token, stop)) :
    token = .endAt c.position ∨ Taken c token stop := by
  rw [scanToken] at h
  split at h
  · cases h
    exact Or.inl rfl
  · split at h
    · exact Or.inr (scanNumber_taken h)
    · exact Or.inr (TokenClass.taken h)

lemma skipTrivia_ok {c d : Cursor} (h : skipTrivia c = .ok d) : ∃ n, d = c.skip n := by
  fun_induction skipTrivia c with
  | case1 c =>
    obtain rfl := Except.ok.inj h
    exact ⟨0, rfl⟩
  | case2 c n hfront ih =>
    obtain ⟨m, rfl⟩ := ih h
    exact ⟨n + m, c.skip_skip n m⟩
  | case3 => cases h

lemma nextToken_ok {c stop : Cursor} {token : Token} (h : nextToken c = (.ok token, stop)) :
    ∃ n, scanToken (c.skip n) = (.ok token, stop) := by
  rw [nextToken] at h
  split at h
  · cases h
  · rename_i d hd
    obtain ⟨n, rfl⟩ := skipTrivia_ok hd
    exact ⟨n, h⟩

lemma lexFrom_laid {fuel : Nat} {c : Cursor} (hfuel : c.rest.length < fuel) (h : (lexFrom fuel c).error = none) :
    Laid c.position (lexFrom fuel c).tokens := by
  -- Each token takes a byte of the rest, so the steps do not run out before the end mark is read.
  induction fuel generalizing c with
  | zero => exact absurd hfuel (Nat.not_lt_zero _)
  | succ fuel ih =>
    rw [lexFrom] at h ⊢
    rcases hn : nextToken c with ⟨_ | token, stop⟩
    · rw [hn] at h
      cases h
    · rw [hn] at h
      dsimp only at h ⊢
      obtain ⟨d, hscan⟩ := nextToken_ok hn
      have hle := c.position_le_skip d
      rcases scanToken_ok hscan with rfl | ⟨hkind, hspan, n, hpos, hbytes, rfl⟩
      · rw [if_pos (show (Token.endAt (c.skip d).position).kind = .endMark from rfl)]
        exact .last hle rfl rfl
      · rw [if_neg hkind] at h ⊢
        have hlt := (c.skip d).position_lt_skip hpos hbytes
        have hstop : token.span.stop = ((c.skip d).skip n).position := by rw [hspan, Cursor.spanTo]
        have hrest : ((c.skip d).skip n).rest.length < fuel := by
          rw [Cursor.rest_skip, List.length_drop]
          rw [Cursor.rest_skip, List.length_drop] at hbytes ⊢
          omega
        refine .cons (hspan ▸ hle) (hspan ▸ hlt) hkind ?_
        rw [hstop]
        exact ih hrest h

theorem tokenize_laid {source : List UInt8} {tokens : List Token} (h : tokenize source = .ok tokens) :
    Laid {} tokens := by
  rw [tokenize] at h
  cases hl : lex source with
  | mk found error =>
    rw [hl] at h
    cases error with
    | some e => cases h
    | none =>
      obtain rfl := Except.ok.inj h
      have hfuel : (Cursor.ofBytes source).rest.length < source.length + 1 := Nat.lt_succ_self _
      have hlaid := lexFrom_laid hfuel
      rw [← lex, hl] at hlaid
      exact hlaid rfl

end Ramify.C
