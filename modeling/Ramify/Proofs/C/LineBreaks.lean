import Ramify.Proofs.C.Readings

namespace Ramify

def Position.down (k : Nat) (p : Position) : Position := ⟨p.line + k, p.column⟩

def Span.down (k : Nat) (s : Span) : Span := ⟨s.start.down k, s.stop.down k⟩

lemma Position.foldl_after_down (k : Nat) (p : Position) (bytes : List UInt8) :
    bytes.foldl after (p.down k) = (bytes.foldl after p).down k := by
  induction bytes generalizing p with
  | nil => rfl
  | cons b bytes ih =>
    have hstep : (p.down k).after b = (p.after b).down k := by
      by_cases hb : b = 10 <;> simp [after, down, hb, Nat.add_right_comm]
    rw [List.foldl_cons, List.foldl_cons, hstep, ih]

lemma Position.foldl_after_newline (bytes : List UInt8) :
    (bytes ++ [10]).foldl after {} = down (bytes.count 10 + 1) {} := by
  have hline (p : Position) : (bytes.foldl after p).line = p.line + bytes.count 10 := by
    induction bytes generalizing p with
    | nil => rfl
    | cons b bytes ih => by_cases hb : b = 10 <;> simp [ih, after, hb, Nat.add_assoc, Nat.add_comm 1]
  simp [after, down, hline, Nat.add_assoc]

namespace C

def Token.down (k : Nat) (token : Token) : Token := { token with span := token.span.down k }

def LexError.down (k : Nat) (e : LexError) : LexError := { e with span := e.span.down k }

def Lexing.down (k : Nat) (l : Lexing) : Lexing where
  tokens := l.tokens.map (Token.down k)
  error := l.error.map (LexError.down k)

lemma lexFrom_down {k : Nat} {c d : Cursor} (hrest : d.rest = c.rest) (hplace : d.position = c.position.down k)
    (fuel : Nat) : lexFrom fuel d = (lexFrom fuel c).down k := by
  induction fuel generalizing c d with
  | zero => rfl
  | succ fuel ih =>
    have hskip (n : Nat) : (d.skip n).position = (c.skip n).position.down k := by
      rw [Cursor.position_skip, Cursor.position_skip, hplace, hrest, Position.foldl_after_down]
    have hspan (r : Reading) : r.span d = (r.span c).down k := by
      rw [Reading.span, Cursor.spanTo, hskip, hskip]
      rfl
    cases hresult : (readNext c.rest).result with
    | error kind =>
      rw [lexFrom_of_error hresult, lexFrom_of_error (hrest ▸ hresult), hrest, hspan]
      rfl
    | ok token =>
      rw [lexFrom_of_ok hresult, lexFrom_of_ok (hrest ▸ hresult), hrest, hspan]
      split
      · rfl
      · rw [ih (c := c.skip _) (by rw [Cursor.rest_skip, Cursor.rest_skip, hrest]) (hskip _)]
        rfl

section

variable {bytes : List UInt8} {n : Nat}

lemma blockComment?_append (h : blockComment? bytes = some n) (rest : List UInt8) :
    blockComment? (bytes ++ rest) = some n := by
  induction bytes generalizing n with
  | nil => cases h
  | cons b bytes ih =>
    rw [List.cons_append, blockComment?]
    rw [blockComment?] at h
    cases bytes with
    | nil => simp [blockComment?] at h
    | cons a bytes =>
      rw [List.cons_append, List.head?_cons]
      rw [List.head?_cons] at h
      split at h
      · rename_i hclose
        rwa [if_pos hclose]
      · rename_i hopen
        obtain ⟨m, hm, rfl⟩ := Option.map_eq_some_iff.mp h
        rw [if_neg hopen, ← List.cons_append, ih hm, Option.map_some]

lemma front_append (hne : bytes ≠ []) (h : front bytes ≠ .unclosed) (rest : List UInt8) :
    front (bytes ++ 10 :: rest) = front bytes := by
  cases bytes with
  | nil => contradiction
  | cons b bytes =>
    have hhead {x : UInt8} (hx : x ≠ 10) : (bytes ++ 10 :: rest).head? = some x ↔ bytes.head? = some x := by
      cases bytes <;> simp [hx.symm]
    have hline : (bytes ++ 10 :: rest).takeWhile (· != 10) = bytes.takeWhile (· != 10) := by
      rw [List.takeWhile_append]
      split
      · rename_i hall
        rw [(List.takeWhile_prefix _).eq_of_length hall]
        simp
      · rfl
    rw [List.cons_append, front, front]
    rw [front] at h
    simp only [hhead (show (42 : UInt8) ≠ 10 by decide), hhead (show (47 : UInt8) ≠ 10 by decide), hline]
    split
    · rfl
    · split
      · rename_i hblank hopen
        rw [if_neg hblank, if_pos hopen] at h
        obtain ⟨rfl, hstar⟩ : b = 47 ∧ bytes.head? = some 42 := by simpa using hopen
        obtain ⟨bytes, rfl⟩ := List.head?_eq_some_iff.mp hstar
        rw [List.cons_append, List.tail_cons, List.tail_cons]
        rw [List.tail_cons] at h
        cases hclose : blockComment? bytes with
        | none => simp [hclose] at h
        | some n => rw [blockComment?_append hclose]
      · rfl

variable {token : Token}

lemma readNext_append (h : (readNext bytes).result = .ok token) (hne : bytes.drop (readNext bytes).gap ≠ [])
    (rest : List UInt8) : readNext (bytes ++ 10 :: rest) = readNext bytes := by
  fun_induction readNext bytes with
  | case1 bytes hfront =>
    rw [List.drop_zero] at hne
    have hread := readToken_append (Prod.ext h rfl : readToken bytes = (.ok token, _)) hne rest
    rw [readNext_of_token (front_append hne (by simp [hfront]) rest |>.trans hfront), hread, ← h]
  | case2 bytes n hfront ih =>
    obtain ⟨piece, behind, rfl, rfl, _⟩ := front_gap hfront
    have hpiece := front_append (front_gap_pos hfront).2 (by simp [hfront]) rest
    rw [readNext_of_gap (hpiece.trans hfront)]
    rw [List.drop_left] at ih ⊢
    rw [List.append_assoc, List.drop_left]
    rw [Reading.behind, ← List.drop_drop, List.drop_left] at hne
    rw [ih (by simpa [Reading.behind] using h) hne]
  | case3 => cases h

lemma readNext_append_end (h : (readNext bytes).result = .ok token) (hnil : bytes.drop (readNext bytes).gap = [])
    (rest : List UInt8) : readNext (bytes ++ 10 :: rest) = (readNext rest).behind (bytes.length + 1) := by
  fun_induction readNext bytes with
  | case1 bytes hfront =>
    rw [List.drop_zero] at hnil
    rw [hnil, List.nil_append, readNext_of_gap (n := 1) rfl]
    rfl
  | case2 bytes n hfront ih =>
    obtain ⟨piece, behind, rfl, rfl, _⟩ := front_gap hfront
    have hpiece := front_append (front_gap_pos hfront).2 (by simp [hfront]) rest
    rw [readNext_of_gap (hpiece.trans hfront)]
    rw [List.drop_left] at ih
    rw [List.append_assoc, List.drop_left]
    rw [Reading.behind, ← List.drop_drop, List.drop_left] at hnil
    rw [ih (by simpa [Reading.behind] using h) hnil]
    simp [Reading.behind, Nat.add_assoc]
  | case3 => cases h

end

lemma lexFrom_behind {n fuel : Nat} {c : Cursor} (h : readNext c.rest = (readNext (c.rest.drop n)).behind n) :
    lexFrom (fuel + 1) c = lexFrom (fuel + 1) (c.skip n) := by
  have hresult : (readNext c.rest).result = (readNext (c.skip n).rest).result := by
    rw [h, Cursor.rest_skip]
    rfl
  have hspan : (readNext c.rest).span c = (readNext (c.skip n).rest).span (c.skip n) := by
    rw [h, Reading.span_behind, Cursor.rest_skip]
  cases hr : (readNext (c.skip n).rest).result with
  | error kind => rw [lexFrom_of_error hr, lexFrom_of_error (hresult.trans hr), hspan]
  | ok token =>
    rw [lexFrom_of_ok hr, lexFrom_of_ok (hresult.trans hr), hspan, Cursor.skip_skip, h, Cursor.rest_skip]
    simp [Reading.behind, Nat.add_assoc]

lemma lexFrom_append {fuel : Nat} {c d : Cursor} {rest : List UInt8} (hrest : d.rest = c.rest ++ 10 :: rest)
    (hplace : d.position = c.position) (hfuel : d.rest.length < fuel) (h : (lexFrom fuel c).error = none) :
    lexFrom fuel d =
      { tokens := (lexFrom fuel c).tokens.dropLast ++ (lexFrom fuel (d.skip (c.rest.length + 1))).tokens
        error := (lexFrom fuel (d.skip (c.rest.length + 1))).error } := by
  induction fuel generalizing c d with
  | zero => exact absurd hfuel (Nat.not_lt_zero _)
  | succ fuel ih =>
    have hlength : d.rest.length = c.rest.length + 1 + rest.length := by simp [hrest]; omega
    cases hresult : (readNext c.rest).result with
    | error kind =>
      rw [lexFrom_of_error hresult] at h
      cases h
    | ok token =>
      rcases readNext_cases hresult with ⟨hend, -, rfl⟩ | ⟨hne, hpos, hle, hkind⟩
      · -- The first text is at its end, and the newline belongs to the gap.
        have hbehind : readNext d.rest = (readNext (d.rest.drop (c.rest.length + 1))).behind (c.rest.length + 1) := by
          rw [hrest, readNext_append_end hresult (by rw [hend, List.drop_length]), List.drop_length_add_append]
          rfl
        rw [lexFrom_of_end hresult, ← lexFrom_behind hbehind]
        rfl
      · have hread : readNext d.rest = readNext c.rest := hrest ▸ readNext_append hresult hne rest
        have hskip {n : Nat} (hn : n ≤ c.rest.length) : (d.skip n).position = (c.skip n).position := by
          rw [Cursor.position_skip, Cursor.position_skip, hplace, hrest, List.take_append_of_le_length hn]
        have hspan : (readNext c.rest).span d = (readNext c.rest).span c := by
          rw [Reading.span, Reading.span, Cursor.spanTo, Cursor.spanTo, hskip hle, hskip (by omega)]
        rw [lexFrom_of_token hresult hkind] at h
        rw [lexFrom_of_token hresult hkind, lexFrom_of_token (hread ▸ hresult) hkind, hread, hspan]
        have hadvance : 0 < (readNext c.rest).gap + (readNext c.rest).size := by omega
        generalize (readNext c.rest).gap + (readNext c.rest).size = m at *
        have hleft : (c.skip m).rest.length = c.rest.length - m := by rw [Cursor.rest_skip, List.length_drop]
        have hmore := ih (c := c.skip m) (d := d.skip m)
          (by rw [Cursor.rest_skip, Cursor.rest_skip, hrest, List.drop_append_of_le_length hle]) (hskip hle)
          (by rw [Cursor.rest_skip, List.length_drop]; omega) h
        have hjoin : (d.skip m).skip ((c.skip m).rest.length + 1) = d.skip (c.rest.length + 1) := by
          rw [Cursor.skip_skip, hleft]
          congr 1
          omega
        have hbelow : (d.skip (c.rest.length + 1)).rest.length = rest.length := by
          rw [Cursor.rest_skip, List.length_drop]
          omega
        have hne : (lexFrom fuel (c.skip m)).tokens ≠ [] :=
          List.ne_nil_of_length_pos (lexFrom_laid (by omega) h).pos
        have hlast : lexFrom fuel (d.skip (c.rest.length + 1)) = lexFrom (fuel + 1) (d.skip (c.rest.length + 1)) :=
          lexFrom_fuel (by omega) (by omega)
        rw [hmore, hjoin, hlast, List.dropLast_cons_of_ne_nil hne, List.cons_append]

/-- A newline between two texts separates them: the tokens of the first are those it has by itself without
its end mark, and those of the second follow so many lines further down, or its error does. -/
theorem tokenize_newline {first : List UInt8} {tokens : List Token} (h : tokenize first = .ok tokens)
    (second : List UInt8) : tokenize (first ++ 10 :: second) =
      match tokenize second with
      | .ok following => .ok (tokens.dropLast ++ following.map (Token.down (first.count 10 + 1)))
      | .error e => .error (e.down (first.count 10 + 1)) := by
  obtain ⟨herror, rfl⟩ := tokenize_eq_ok.mp h
  set source := first ++ 10 :: second
  set c := Cursor.ofBytes first
  set d := Cursor.ofBytes source
  have hfirst : lexFrom (source.length + 1) c = lex first :=
    lexFrom_fuel (by simp [c, source, Cursor.ofBytes]) (by simp [c, Cursor.ofBytes])
  have hrest : (d.skip (first.length + 1)).rest = second := by
    rw [Cursor.rest_skip]
    exact List.drop_length_add_append _
  have hplace : (d.skip (first.length + 1)).position = Position.down (first.count 10 + 1) {} := by
    rw [Cursor.position_skip, ← Position.foldl_after_newline]
    congr 1
    exact List.take_length_add_append 1
  have hsecond : lexFrom (source.length + 1) (d.skip (first.length + 1)) = (lex second).down (first.count 10 + 1) := by
    rw [lexFrom_down (c := .ofBytes second) hrest hplace]
    exact congrArg _ (lexFrom_fuel (by simp [source, Cursor.ofBytes]; omega) (by simp [Cursor.ofBytes]))
  have hsource : lex source = _ :=
    lexFrom_append (c := c) rfl rfl (Nat.lt_succ_self _) (hfirst ▸ herror)
  rw [hfirst, show c.rest.length = first.length from rfl, hsecond] at hsource
  rw [tokenize, tokenize, hsource]
  rcases lex second with ⟨following, _ | e⟩ <;> rfl

theorem tokenize_newline_comment :
    let a : Token := { kind := .identifier, text := "a", span := ⟨⟨1, 1⟩, ⟨1, 2⟩⟩ }
    let dot (column : Nat) : Token :=
      { kind := .punctuator .dot, text := ".", span := ⟨⟨2, column⟩, ⟨2, column + 1⟩⟩ }
    tokenize [97, 47, 47] = .ok [a, .endAt ⟨1, 4⟩] ∧
      tokenize ([97, 47, 47] ++ 10 :: [46, 46]) = .ok [a, dot 1, dot 2, .endAt ⟨2, 3⟩] := by
  intro a dot
  have hfirst : tokenize [97, 47, 47] = .ok [a, .endAt ⟨1, 4⟩] := by decide +kernel
  refine ⟨hfirst, (tokenize_newline hfirst [46, 46]).trans ?_⟩
  decide +kernel

end C

end Ramify
