import Ramify.C.Literal
import Ramify.Proofs.Text.MaximalMunch

namespace Ramify.C.Literal

/-- Bytes other than the quote, a backslash or a newline, and pairs of a backslash with any byte but a newline. -/
inductive Body (quote : UInt8) : List UInt8 → Prop
  | nil : Body quote []
  | plain {b : UInt8} {rest : List UInt8} : b ∉ [quote, 92, 10] → Body quote rest → Body quote (b :: rest)
  | pair {b : UInt8} {rest : List UInt8} : b ≠ 10 → Body quote rest → Body quote (92 :: b :: rest)

def Closed (quote : UInt8) (bytes : List UInt8) : Prop := ∃ body rest, Body quote body ∧ bytes = body ++ quote :: rest

def EndsUnpaired (bytes : List UInt8) : Prop := Odd (bytes.reverse.takeWhile (· == 92)).length

def Way (quote : UInt8) (word : List UInt8) : State → Prop
  | .start => word = []
  | .body => ∃ body, Body quote body ∧ word = quote :: body
  | .escape => ∃ body, Body quote body ∧ word = quote :: (body ++ [92])
  | .closed => ∃ body, Body quote body ∧ word = quote :: (body ++ [quote])

variable {name : String} {quote b : UInt8} {s t : State} {bytes front body rest word : List UInt8}

lemma Body.append (h : Body quote body) (hrest : Body quote rest) : Body quote (body ++ rest) := by
  induction h with
  | nil => exact hrest
  | plain hb _ ih => exact .plain hb ih
  | pair hb _ ih => exact .pair hb ih

lemma Body.not_endsUnpaired (h : Body quote body) : ¬ EndsUnpaired body := by
  unfold EndsUnpaired
  induction h with
  | nil => simp
  | plain hb _ ih =>
    rw [List.reverse_cons, List.takeWhile_append]
    split <;> simp_all
  | pair _ _ ih =>
    rw [List.reverse_cons, List.reverse_cons, List.append_assoc, List.takeWhile_append]
    split
    · rename_i b rest _ _ hall
      by_cases hb : b = 92
      · simp_all [Nat.odd_add]
      · simp_all
    · exact ih

section Next

variable (name) (hquote : quote ≠ 10)

lemma next_start : (automaton name quote).next .start b = if b = quote then .goto .body else .stuck := by
  by_cases hb : b = quote <;> simp [Automaton.next, automaton, hb]

lemma next_body : (automaton name quote).next .body b =
    if b = quote then .goto .closed else if b = 92 then .goto .escape else if b = 10 then .forbidden
    else .goto .body := by
  rcases eq_or_ne b quote with rfl | hb
  · simp [Automaton.next, automaton]
  rcases eq_or_ne b 92 with rfl | hbackslash
  · simp [Automaton.next, automaton, hb]
  rcases eq_or_ne b 10 with rfl | hnewline <;> simp_all [Automaton.next, automaton]

lemma next_closed : (automaton name quote).next .closed b = .stuck := by
  simp [Automaton.next, automaton]

include hquote

lemma next_escape : (automaton name quote).next .escape b = if b = 10 then .forbidden else .goto .body := by
  rcases eq_or_ne b quote with rfl | hb
  · simp [Automaton.next, automaton, hquote]
  rcases eq_or_ne b 92 with rfl | hbackslash
  · simp [Automaton.next, automaton, hb]
  rcases eq_or_ne b 10 with rfl | hnewline <;> simp_all [Automaton.next, automaton]

lemma Way.step (h : Way quote word s) (hnext : (automaton name quote).next s b = .goto t) :
    Way quote (word ++ [b]) t := by
  cases s with
  | start =>
    rw [next_start] at hnext
    split at hnext <;> cases hnext
    obtain rfl : word = [] := h
    subst_vars
    exact ⟨[], .nil, rfl⟩
  | body =>
    obtain ⟨body, hbody, rfl⟩ := h
    rw [next_body] at hnext
    split_ifs at hnext with hb hb' hb'' <;> cases hnext
    · exact ⟨body, hbody, by rw [hb]; rfl⟩
    · exact ⟨body, hbody, by rw [hb']; rfl⟩
    · exact ⟨body ++ [b], hbody.append (.plain (by simp [*]) .nil), rfl⟩
  | escape =>
    obtain ⟨body, hbody, rfl⟩ := h
    rw [next_escape name hquote] at hnext
    split at hnext <;> cases hnext
    exact ⟨body ++ [92, b], hbody.append (.pair ‹_› .nil), by simp⟩
  | closed =>
    rw [next_closed] at hnext
    cases hnext

lemma way_of_path (h : (automaton name quote).Path .start word s) : Way quote word s := by
  have hstart : Way quote [] .start := rfl
  exact h.invariant (P := Way quote) hstart fun hway hnext => hway.step name hquote hnext

lemma path_of_line (hs : s = .body ∨ s = .escape) (hline : 10 ∉ front) :
    (∃ t, (t = .body ∨ t = .escape) ∧ (automaton name quote).Path s front t) ∨
      ∃ before after, front = before ++ quote :: after ∧ (automaton name quote).Path s (before ++ [quote]) .closed := by
  induction front generalizing s with
  | nil => exact Or.inl ⟨s, hs, .nil⟩
  | cons b front ih =>
    rw [List.mem_cons, not_or] at hline
    have hb : b ≠ 10 := Ne.symm hline.1
    have hclosed_or : (b = quote ∧ (automaton name quote).next s b = .goto .closed) ∨
        ∃ t, (t = .body ∨ t = .escape) ∧ (automaton name quote).next s b = .goto t := by
      rcases hs with rfl | rfl
      · rw [next_body]
        by_cases hclose : b = quote <;> by_cases hback : b = 92 <;> simp_all
      · rw [next_escape name hquote]
        simp [hb]
    rcases hclosed_or with ⟨rfl, hnext⟩ | ⟨t, ht, hnext⟩
    · exact Or.inr ⟨[], front, rfl, .cons hnext .nil⟩
    · rcases ih ht hline.2 with ⟨u, hu, hpath⟩ | ⟨before, after, rfl, hpath⟩
      · exact Or.inl ⟨u, hu, .cons hnext hpath⟩
      · exact Or.inr ⟨b :: before, after, rfl, .cons hnext hpath⟩

lemma path_open (hline : 10 ∉ front) (hopen : ¬ Closed quote front) :
    ∃ t, (t = .body ∨ t = .escape) ∧ (automaton name quote).Path .start (quote :: front) t := by
  have hstart : (automaton name quote).next .start quote = .goto .body := by simp [next_start]
  rcases path_of_line name hquote (Or.inl rfl) hline with ⟨t, ht, hpath⟩ | ⟨before, after, rfl, hpath⟩
  · exact ⟨t, ht, .cons hstart hpath⟩
  · obtain ⟨body, hbody, hword⟩ := way_of_path name hquote (.cons hstart hpath)
    obtain rfl : before = body := by simpa using hword
    exact absurd ⟨before, after, hbody, rfl⟩ hopen

lemma next_newline (ht : t = .body ∨ t = .escape) : (automaton name quote).next t 10 = .forbidden := by
  rcases ht with rfl | rfl
  · simp [next_body, hquote.symm]
  · simp [next_escape name hquote]

variable (hbackslash : quote ≠ 92)

include hbackslash

lemma Body.path (h : Body quote body) : (automaton name quote).Path .body body .body := by
  induction h with
  | nil => exact .nil
  | plain hb _ ih =>
    refine .cons ?_ ih
    simp_all [next_body]
  | pair hb _ ih =>
    refine .cons (t := .escape) ?_ (.cons ?_ ih)
    · simp [next_body, hbackslash.symm]
    · simp [next_escape name hquote, hb]

lemma Body.path_quoted (h : Body quote body) :
    (automaton name quote).Path .start (quote :: (body ++ [quote])) .closed := by
  have hopen : (automaton name quote).next .start quote = .goto .body := by simp [next_start]
  have hclose : (automaton name quote).next .body quote = .goto .closed := by simp [next_body]
  exact .cons hopen ((h.path name hquote hbackslash).append (.cons hclose .nil))

end Next

section Run

variable {c stop : Cursor} (hquote : quote ≠ 10) (hbackslash : quote ≠ 92)

lemma accepts_iff : (automaton name quote).accepts s = true ↔ s = .closed := by
  cases s <;> simp [automaton]

include hquote

variable (name) in
lemma run_newline (hrest : c.rest = quote :: (front ++ 10 :: rest)) (hline : 10 ∉ front) (hopen : ¬ Closed quote front) :
    ∃ stop, c.Passes (quote :: (front ++ [10])) stop ∧
      (automaton name quote).run c = (.error ⟨.invalidCharacter, c.spanTo stop, name⟩, stop) := by
  obtain ⟨t, ht, hpath⟩ := path_open name hquote hline hopen
  have hnext := next_newline name hquote ht
  have hfurthest : (automaton name quote).Furthest c.rest (quote :: front) t :=
    ⟨hpath, 10 :: rest, hrest, by simp [hnext]⟩
  obtain ⟨stop, hpasses, hrun⟩ := hfurthest.run_forbidden (b := 10) (by simp [hrest]) hnext
  exact ⟨stop, hpasses, hrun⟩

variable (name) in
lemma run_ended (hrest : c.rest = quote :: front) (hline : 10 ∉ front) (hopen : ¬ Closed quote front) :
    ∃ stop, c.Passes (quote :: front) stop ∧
      (automaton name quote).run c = (.error ⟨.unidentifiedToken, c.spanTo stop, name⟩, stop) := by
  obtain ⟨t, ht, hpath⟩ := path_open name hquote hline hopen
  have hfurthest : (automaton name quote).Furthest c.rest (quote :: front) t := ⟨hpath, [], by simp [hrest], by simp⟩
  have hallowed : ∀ b ∈ c.rest[(quote :: front).length]?, (automaton name quote).next t b ≠ .forbidden := by
    simp [hrest]
  rcases hrun : (automaton name quote).run c with ⟨f | u, stop⟩
  · obtain ⟨hpasses, rfl⟩ := hfurthest.run_refused hallowed hrun
    exact ⟨stop, hpasses, rfl⟩
  · obtain ⟨rfl, haccepts, _⟩ := (hfurthest.run_stays hallowed rfl).mp hrun
    rw [accepts_iff] at haccepts
    simp [haccepts] at ht

include hbackslash

lemma run_ok_iff : (automaton name quote).run c = (.ok s, stop) ↔
    s = .closed ∧ ∃ body, Body quote body ∧ c.Passes (quote :: (body ++ [quote])) stop := by
  constructor
  · intro hrun
    obtain ⟨lexeme, t, hfurthest⟩ := (automaton name quote).exists_furthest c.rest
    obtain ⟨rfl, haccepts, hpasses⟩ := (hfurthest.run_stays (hfurthest.allowed_of_ok hrun) rfl).mp hrun
    obtain rfl := accepts_iff.mp haccepts
    obtain ⟨body, hbody, rfl⟩ := way_of_path name hquote hfurthest.path
    exact ⟨rfl, body, hbody, hpasses⟩
  · rintro ⟨rfl, body, hbody, hpasses⟩
    have hfurthest : (automaton name quote).Furthest c.rest (quote :: (body ++ [quote])) .closed :=
      ⟨hbody.path_quoted name hquote hbackslash, stop.rest, hpasses.rest, by simp [next_closed]⟩
    exact (hfurthest.run_stays (by simp [next_closed]) rfl).mpr ⟨rfl, rfl, hpasses⟩

end Run

lemma contents_body (body : List UInt8) (span : Span) :
    contents (quote :: (body ++ [quote])) span = (Escape.decode body).mapError (⟨·, span⟩) := by
  rw [contents, List.drop_succ_cons, List.drop_zero, List.dropLast_concat]
  cases Escape.decode body <;> rfl

def charValue : List UInt8 → Option Value
  | [b] => some (.char b)
  | _ => none

/-- A recognizer reads what stands between quotes: it makes a token of a body that is decoded to some value, and of
nothing else. -/
structure Delimits (r : Recognizer State Cond) (quote : UInt8) (kind : TokenKind)
    (value : List UInt8 → Option Value) : Prop where
  ok : ∀ c token stop, r.scan c = (.ok token, stop) ↔ ∃ body bytes v, Body quote body ∧
    Escape.decode body = .ok bytes ∧ value bytes = some v ∧ c.Passes (quote :: (body ++ [quote])) stop ∧
    token = ⟨kind, Text.Utf8.decodeLossy (quote :: (body ++ [quote])), c.spanTo stop, some v⟩
  newline : ∀ c front rest, c.rest = quote :: (front ++ 10 :: rest) → 10 ∉ front → ¬ Closed quote front →
    ∃ stop, c.Passes (quote :: (front ++ [10])) stop ∧ r.scan c = (.error ⟨.invalidCharacter, c.spanTo stop⟩, stop)
  ended : ∀ c front, c.rest = quote :: front → 10 ∉ front → ¬ Closed quote front →
    ∃ stop, c.Passes (quote :: front) stop ∧ r.scan c = (.error ⟨.unidentifiedToken, c.spanTo stop⟩, stop)
  sliced : ∀ c s stop, r.automaton.run c = (.ok s, stop) → 2 ≤ (c.sliceTo stop).length ∧
    ¬ EndsUnpaired ((c.sliceTo stop).drop 1).dropLast

variable {r : Recognizer State Cond} {kind : TokenKind} {value : List UInt8 → Option Value}

lemma delimits (hr : r.automaton = automaton name quote) (hquote : quote ≠ 10) (hbackslash : quote ≠ 92)
    (hbuild : ∀ body span token, r.build .closed (quote :: (body ++ [quote])) span = .ok token ↔ ∃ bytes v,
      Escape.decode body = .ok bytes ∧ value bytes = some v ∧
        token = ⟨kind, Text.Utf8.decodeLossy (quote :: (body ++ [quote])), span, some v⟩) :
    Delimits r quote kind value where
  ok c token stop := by
    constructor
    · intro hscan
      rcases hrun : r.automaton.run c with ⟨f | s, d⟩
      · rw [Recognizer.scan_of_error hrun] at hscan
        cases hscan
      · obtain ⟨rfl, body, hbody, hpasses⟩ := (run_ok_iff hquote hbackslash).mp (hr ▸ hrun)
        rw [Recognizer.scan_of_ok hrun hpasses] at hscan
        obtain ⟨hresult, rfl⟩ := Prod.mk.inj hscan
        obtain ⟨bytes, v, hdecode, hvalue, htoken⟩ := (hbuild _ _ _).mp hresult
        exact ⟨body, bytes, v, hbody, hdecode, hvalue, hpasses, htoken⟩
    · rintro ⟨body, bytes, v, hbody, hdecode, hvalue, hpasses, rfl⟩
      have hrun : r.automaton.run c = (.ok .closed, stop) :=
        hr ▸ (run_ok_iff hquote hbackslash).mpr ⟨rfl, body, hbody, hpasses⟩
      rw [Recognizer.scan_of_ok hrun hpasses, (hbuild _ _ _).mpr ⟨bytes, v, hdecode, hvalue, rfl⟩]
  newline c front rest hrest hline hopen := by
    obtain ⟨stop, hpasses, hrun⟩ := run_newline name hquote hrest hline hopen
    exact ⟨stop, hpasses, Recognizer.scan_of_error (hr ▸ hrun)⟩
  ended c front hrest hline hopen := by
    obtain ⟨stop, hpasses, hrun⟩ := run_ended name hquote hrest hline hopen
    exact ⟨stop, hpasses, Recognizer.scan_of_error (hr ▸ hrun)⟩
  sliced c s stop hrun := by
    obtain ⟨_, body, hbody, hpasses⟩ := (run_ok_iff hquote hbackslash).mp (hr ▸ hrun)
    rw [hpasses.sliceTo, List.drop_succ_cons, List.drop_zero, List.dropLast_concat]
    exact ⟨by simp, hbody.not_endsUnpaired⟩

/-- Literals are delimited by their quotes. A string and a character constant are read exactly where a body stands
between two quotes that is decoded, for a character to one byte. A newline in front of the closing quote is an
invalid character, and a text that ends in front of it is not identified. The two quotes can be taken off every
lexeme, and what is decoded never ends in a backslash without a partner. -/
theorem literals_delimited : Delimits stringRecognizer 34 .string (fun bytes => some (.bytes bytes)) ∧
    Delimits charRecognizer 39 .character charValue := by
  constructor
  · refine delimits rfl (by decide) (by decide) fun body span token => ?_
    dsimp only [stringRecognizer]
    rw [contents_body]
    cases Escape.decode body <;> simp [Except.mapError, bind, Except.bind, pure, Except.pure, eq_comm]
  · refine delimits rfl (by decide) (by decide) fun body span token => ?_
    dsimp only [charRecognizer]
    rw [contents_body]
    rcases Escape.decode body with _ | _ | ⟨_, _ | _⟩ <;>
      simp [Except.mapError, bind, Except.bind, pure, Except.pure, charValue, eq_comm]

end Ramify.C.Literal
