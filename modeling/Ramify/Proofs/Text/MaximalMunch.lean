import Ramify.Proofs.Text.LongestRuns

/-! Maximal munch. A byte is decided by the first condition that holds for it and concerns the state; the longest
run of edges decides how far an automaton goes; and one that backtracks returns to the end of the longest prefix of
this run at which it accepts. -/

namespace Ramify

structure Cursor.Passes (c : Cursor) (bytes : List UInt8) (stop : Cursor) : Prop where
  rest : c.rest = bytes ++ stop.rest
  past : stop.past = bytes.reverse ++ c.past
  offset : stop.offset = c.offset + bytes.length
  position : stop.position = bytes.foldl Position.after c.position

namespace Cursor

variable {c stop : Cursor} {bytes : List UInt8}

lemma past_skip (c : Cursor) (n : ℕ) : (c.skip n).past = (c.rest.take n).reverse ++ c.past := by
  induction n generalizing c with
  | zero => simp [skip]
  | succ n ih => cases h : c.rest <;> simp [skip, atEnd, advance, h, ih]

lemma passes_skip (h : bytes <+: c.rest) : c.Passes bytes (c.skip bytes.length) := by
  have htake : c.rest.take bytes.length = bytes := (List.prefix_iff_eq_take.mp h).symm
  constructor
  · rw [rest_skip]
    exact (List.prefix_append_drop h)
  · rw [past_skip, htake]
  · rw [offset_skip, Nat.min_eq_left h.length_le]
  · rw [position_skip, htake]

lemma Passes.eq_skip (h : c.Passes bytes stop) : stop = c.skip bytes.length := by
  have hskip : c.Passes bytes (c.skip bytes.length) := passes_skip ⟨_, h.rest.symm⟩
  have hrest : stop.rest = (c.skip bytes.length).rest := List.append_cancel_left (h.rest.symm.trans hskip.rest)
  have hpast := h.past.trans hskip.past.symm
  have hoffset := h.offset.trans hskip.offset.symm
  have hposition := h.position.trans hskip.position.symm
  cases stop
  simp_all

lemma passes_iff : c.Passes bytes stop ↔ bytes <+: c.rest ∧ stop = c.skip bytes.length := by
  constructor
  · intro h
    exact ⟨⟨_, h.rest.symm⟩, h.eq_skip⟩
  · rintro ⟨h, rfl⟩
    exact passes_skip h

lemma Passes.sliceTo (h : c.Passes bytes stop) : c.sliceTo stop = bytes := by
  rw [h.eq_skip, sliceTo_skip, h.rest, List.take_left]

end Cursor

namespace Automaton

variable {σ κ : Type} (A : Automaton σ κ)

structure LongestAccepted (s : σ) (bytes front : List UInt8) (t : σ) : Prop where
  within : front <+: bytes
  path : A.Path s front t
  accepts : A.accepts t = true
  longest : ∀ other u, other <+: bytes → A.Path s other u → A.accepts u = true → other.length ≤ front.length

/-- How a run ends whose longest way along the edges reads `lexeme` and leads to `s`. -/
structure Munches (c : Cursor) (lexeme : List UInt8) (s : σ) : Prop where
  furthest : A.Furthest c.rest lexeme s
  forbidden : ∀ b ∈ c.rest[lexeme.length]?, A.next s b = .forbidden → ∃ stop, c.Passes (lexeme ++ [b]) stop ∧
    A.run c = (.error ⟨.invalidCharacter, c.spanTo stop, A.name⟩, stop)
  accepts : (∀ b ∈ c.rest[lexeme.length]?, A.next s b ≠ .forbidden) → A.backtracks = true →
    ((∃ t stop, A.run c = (.ok t, stop)) ↔ ∃ front t, front <+: lexeme ∧ A.Path A.start front t ∧ A.accepts t = true)
  backtracks : (∀ b ∈ c.rest[lexeme.length]?, A.next s b ≠ .forbidden) → A.backtracks = true → ∀ t stop,
    A.run c = (.ok t, stop) ↔ ∃ front, A.LongestAccepted A.start lexeme front t ∧ c.Passes front stop
  stays : (∀ b ∈ c.rest[lexeme.length]?, A.next s b ≠ .forbidden) → A.backtracks = false → ∀ t stop,
    A.run c = (.ok t, stop) ↔ t = s ∧ A.accepts s = true ∧ c.Passes lexeme stop
  refused : (∀ b ∈ c.rest[lexeme.length]?, A.next s b ≠ .forbidden) → ∀ f stop, A.run c = (.error f, stop) →
    c.Passes lexeme stop ∧ f = ⟨.unidentifiedToken, c.spanTo stop, A.name⟩

variable {A} {s t u : σ} {b : UInt8} {bytes front lexeme : List UInt8}

lemma LongestAccepted.unique {other : List UInt8} (h : A.LongestAccepted s bytes front t)
    (h' : A.LongestAccepted s bytes other u) : front = other ∧ t = u := by
  have hle := h'.longest front t h.within h.path h.accepts
  have hge := h.longest other u h'.within h'.path h'.accepts
  obtain rfl := (List.prefix_of_prefix_length_le h.within h'.within hle).eq_of_length_le hge
  exact ⟨rfl, h.path.unique h'.path⟩

lemma path_cons_iff : A.Path s (b :: bytes) u ↔ ∃ t, A.next s b = .goto t ∧ A.Path t bytes u := by
  constructor
  · rintro (_ | ⟨hnext, h⟩)
    exact ⟨_, hnext, h⟩
  · rintro ⟨t, hnext, h⟩
    exact .cons hnext h

lemma path_nil_iff : A.Path s [] t ↔ s = t := by
  constructor
  · rintro ⟨⟩
    rfl
  · rintro rfl
    exact .nil

lemma Path.length_le (h : A.Path s front t) (hfront : front <+: bytes) :
    front.length ≤ (A.walk s bytes).edges.length := by
  obtain ⟨rest, rfl⟩ := hfront
  induction h with
  | nil => simp
  | cons hnext _ ih => simpa [Automaton.walk, hnext] using ih

variable (A) in
def Found (s : σ) (bytes : List UInt8) : Option (σ × ℕ) → Prop
  | some (t, n) => ∃ front, A.LongestAccepted s bytes front t ∧ front.length = n
  | none => ∀ front t, front <+: bytes → A.Path s front t → A.accepts t = false

lemma found_start (h : ∀ front t, front ≠ [] → front <+: bytes → A.Path s front t → A.accepts t = false) :
    A.Found s bytes (if A.accepts s then some (s, 0) else none) := by
  by_cases hs : A.accepts s = true
  · rw [if_pos hs]
    refine ⟨[], ⟨List.nil_prefix, .nil, hs, ?_⟩, rfl⟩
    intro other u hother hpath haccepts
    by_contra hne
    have hsome : other ≠ [] := by
      rintro rfl
      simp at hne
    simp [h other u hsome hother hpath] at haccepts
  · rw [if_neg hs]
    intro front t hfront hpath
    by_cases hnil : front = []
    · subst hnil
      rw [path_nil_iff] at hpath
      simpa [hpath] using hs
    · exact h front t hnil hfront hpath

lemma found_walk (s : σ) (bytes : List UInt8) : A.Found s bytes (A.lastAccepting? s (A.walk s bytes).edges) := by
  induction bytes generalizing s with
  | nil =>
    apply found_start
    intro front t hsome hfront
    exact absurd (List.prefix_nil.mp hfront) hsome
  | cons b bytes ih =>
    have hhere (h : ∀ t, A.next s b = .goto t → ∀ front u, front <+: bytes → A.Path t front u → A.accepts u = false) :
        A.Found s (b :: bytes) (if A.accepts s then some (s, 0) else none) := by
      apply found_start
      intro front u hsome hfront hpath
      obtain ⟨a, rest, rfl⟩ := List.exists_cons_of_ne_nil hsome
      obtain ⟨rfl, hrest⟩ := List.cons_prefix_cons.mp hfront
      obtain ⟨t, hnext, hpath⟩ := path_cons_iff.mp hpath
      exact h t hnext rest u hrest hpath
    cases hnext : A.next s b with
    | forbidden | stuck =>
      simp only [walk, hnext]
      apply hhere
      simp [hnext]
    | goto t =>
      simp only [walk, hnext, lastAccepting?]
      have hfound := ih t
      cases hlast : A.lastAccepting? t (A.walk t bytes).edges with
      | none =>
        rw [hlast] at hfound
        apply hhere
        intro t' hnext'
        obtain rfl : t = t' := by simpa [hnext] using hnext'
        exact hfound
      | some found =>
        rw [hlast] at hfound
        obtain ⟨front, hfront, hlength⟩ := hfound
        refine ⟨b :: front, ⟨?_, .cons hnext hfront.path, hfront.accepts, ?_⟩, by simp [hlength]⟩
        · simpa using hfront.within
        · intro other u hother hpath haccepts
          cases other with
          | nil => simp
          | cons a other =>
            obtain ⟨rfl, hrest⟩ := List.cons_prefix_cons.mp hother
            obtain ⟨t', hnext', hpath⟩ := path_cons_iff.mp hpath
            obtain rfl : t = t' := by simpa [hnext] using hnext'
            simpa using hfront.longest other u hrest hpath haccepts

lemma Found.eq_some_iff {found : Option (σ × ℕ)} {n : ℕ} (h : A.Found s bytes found) :
    found = some (t, n) ↔ ∃ front, A.LongestAccepted s bytes front t ∧ front.length = n := by
  cases found with
  | none =>
    simp only [reduceCtorEq, false_iff, not_exists, not_and]
    intro front hfront
    simpa [h front t hfront.within hfront.path] using hfront.accepts
  | some found =>
    obtain ⟨front, hfront, hlength⟩ := h
    constructor
    · rintro ⟨⟩
      exact ⟨front, hfront, hlength⟩
    · rintro ⟨other, hother, rfl⟩
      obtain ⟨rfl, rfl⟩ := hfront.unique hother
      rw [hlength]

variable (A) in
lemma exists_longestAccepted (s : σ) (bytes : List UInt8) : (∃ front t, A.LongestAccepted s bytes front t) ∨
    ∀ front t, front <+: bytes → A.Path s front t → A.accepts t = false := by
  have h := A.found_walk s bytes
  cases hlast : A.lastAccepting? s (A.walk s bytes).edges with
  | none =>
    rw [hlast] at h
    exact Or.inr h
  | some found =>
    rw [hlast] at h
    obtain ⟨front, hfront, _⟩ := h
    exact Or.inl ⟨front, found.1, hfront⟩

section Outcome

variable (h : A.Furthest bytes lexeme s)

include h

lemma Furthest.isPrefix : lexeme <+: bytes := by
  obtain ⟨rest, rfl, _⟩ := h.ends
  exact List.prefix_append lexeme rest

lemma Furthest.within (hfront : front <+: bytes) (hpath : A.Path A.start front t) : front <+: lexeme := by
  apply List.prefix_of_prefix_length_le hfront h.isPrefix
  rw [← h.walk.1]
  exact hpath.length_le hfront

lemma Furthest.longestAccepted_iff :
    A.LongestAccepted A.start bytes front t ↔ A.LongestAccepted A.start lexeme front t := by
  constructor
  · intro hfront
    refine ⟨h.within hfront.within hfront.path, hfront.path, hfront.accepts, fun other u hother => ?_⟩
    exact hfront.longest other u (hother.trans h.isPrefix)
  · intro hfront
    refine ⟨hfront.within.trans h.isPrefix, hfront.path, hfront.accepts, fun other u hother hpath => ?_⟩
    exact hfront.longest other u (h.within hother hpath) hpath

lemma Furthest.found : A.Found A.start lexeme (if A.accepts s then some (s, lexeme.length)
    else A.lastAccepting? A.start (A.walk A.start bytes).edges) := by
  by_cases hs : A.accepts s = true
  · rw [if_pos hs]
    exact ⟨lexeme, ⟨List.prefix_rfl, h.path, hs, fun other u hother _ _ => hother.length_le⟩, rfl⟩
  · rw [if_neg hs]
    have hfound := A.found_walk A.start bytes
    cases hlast : A.lastAccepting? A.start (A.walk A.start bytes).edges with
    | none =>
      rw [hlast] at hfound
      exact fun front t hfront => hfound front t (hfront.trans h.isPrefix)
    | some found =>
      rw [hlast] at hfound
      obtain ⟨front, hfront, hlength⟩ := hfound
      exact ⟨front, h.longestAccepted_iff.mp hfront, hlength⟩

end Outcome

lemma run_eq_ok_iff {c stop : Cursor} :
    A.run c = (.ok t, stop) ↔ ∃ n, A.outcome c.rest = (.ok t, n) ∧ stop = c.skip n := by
  rw [run_eq]
  rcases A.outcome c.rest with ⟨kind | u, n⟩
  · simp [Except.mapError]
  · simp [Except.mapError, eq_comm]

lemma run_eq_error_iff {c stop : Cursor} {f : Fault} : A.run c = (.error f, stop) ↔
    ∃ kind n, A.outcome c.rest = (.error kind, n) ∧ stop = c.skip n ∧ f = ⟨kind, c.spanTo stop, A.name⟩ := by
  rw [run_eq]
  rcases A.outcome c.rest with ⟨kind | u, n⟩
  · simp only [Except.mapError, Prod.mk.injEq, Except.error.injEq]
    constructor
    · rintro ⟨rfl, rfl⟩
      exact ⟨kind, n, ⟨rfl, rfl⟩, rfl, rfl⟩
    · rintro ⟨_, _, ⟨rfl, rfl⟩, rfl, rfl⟩
      exact ⟨rfl, rfl⟩
  · simp [Except.mapError]

section Run

variable {c stop : Cursor} (h : A.Furthest c.rest lexeme s)

include h

lemma Furthest.run_forbidden (hb : b ∈ c.rest[lexeme.length]?) (hnext : A.next s b = .forbidden) :
    ∃ stop, c.Passes (lexeme ++ [b]) stop ∧ A.run c = (.error ⟨.invalidCharacter, c.spanTo stop, A.name⟩, stop) := by
  have hlonger : lexeme ++ [b] <+: c.rest := by
    obtain ⟨rest, hrest, _⟩ := h.ends
    rw [hrest, List.prefix_append_right_inj]
    cases rest <;> simp_all
  refine ⟨_, Cursor.passes_skip hlonger, run_eq_error_iff.mpr ⟨_, _, h.outcome_forbidden ⟨b, hb, hnext⟩, ?_, rfl⟩⟩
  simp

lemma Furthest.allowed_of_ok (hrun : A.run c = (.ok t, stop)) :
    ∀ b ∈ c.rest[lexeme.length]?, A.next s b ≠ .forbidden := by
  intro b hb hnext
  obtain ⟨_, _, hfailed⟩ := h.run_forbidden hb hnext
  rw [hrun] at hfailed
  cases hfailed

variable (hb : ∀ b ∈ c.rest[lexeme.length]?, A.next s b ≠ .forbidden)

include hb

lemma Furthest.run_backtracks (hback : A.backtracks = true) :
    A.run c = (.ok t, stop) ↔ ∃ front, A.LongestAccepted A.start lexeme front t ∧ c.Passes front stop := by
  have hfound (n : ℕ) := h.found.eq_some_iff (t := t) (n := n)
  have houtcome (n : ℕ) : A.outcome c.rest = (.ok t, n) ↔
      ∃ front, A.LongestAccepted A.start lexeme front t ∧ front.length = n := by
    rw [← hfound, h.outcome_eq hb]
    simp only [hback, if_true]
    split <;> simp_all
  simp only [run_eq_ok_iff, houtcome, Cursor.passes_iff]
  constructor
  · rintro ⟨_, ⟨front, hfront, rfl⟩, rfl⟩
    exact ⟨front, hfront, hfront.within.trans h.isPrefix, rfl⟩
  · rintro ⟨front, hfront, _, rfl⟩
    exact ⟨_, ⟨front, hfront, rfl⟩, rfl⟩

lemma Furthest.run_accepts (hback : A.backtracks = true) : (∃ t stop, A.run c = (.ok t, stop)) ↔
    ∃ front t, front <+: lexeme ∧ A.Path A.start front t ∧ A.accepts t = true := by
  constructor
  · rintro ⟨t, stop, hrun⟩
    obtain ⟨front, hfront, _⟩ := (h.run_backtracks hb hback).mp hrun
    exact ⟨front, t, hfront.within, hfront.path, hfront.accepts⟩
  · rintro ⟨front, t, hwithin, hpath, haccepts⟩
    rcases A.exists_longestAccepted A.start lexeme with ⟨longest, u, hlongest⟩ | hnone
    · have hpasses := Cursor.passes_skip (hlongest.within.trans h.isPrefix)
      exact ⟨u, _, (h.run_backtracks hb hback).mpr ⟨longest, hlongest, hpasses⟩⟩
    · simp [hnone front t hwithin hpath] at haccepts

lemma Furthest.run_stays (hback : A.backtracks = false) :
    A.run c = (.ok t, stop) ↔ t = s ∧ A.accepts s = true ∧ c.Passes lexeme stop := by
  have houtcome := h.outcome_eq hb
  simp only [hback, Bool.false_eq_true, if_false] at houtcome
  rw [run_eq_ok_iff, houtcome, Cursor.passes_iff]
  by_cases hs : A.accepts s = true
  · simp [hs, h.isPrefix, eq_comm]
  · simp [hs]

lemma Furthest.run_refused {f : Fault} (hrun : A.run c = (.error f, stop)) :
    c.Passes lexeme stop ∧ f = ⟨.unidentifiedToken, c.spanTo stop, A.name⟩ := by
  obtain ⟨kind, n, houtcome, rfl, rfl⟩ := run_eq_error_iff.mp hrun
  rw [h.outcome_eq hb] at houtcome
  split at houtcome
  · cases houtcome
  · cases houtcome
    exact ⟨Cursor.passes_skip h.isPrefix, rfl⟩

end Run

theorem Furthest.munches {c : Cursor} (h : A.Furthest c.rest lexeme s) : A.Munches c lexeme s where
  furthest := h
  forbidden _ := h.run_forbidden
  accepts hb hback := h.run_accepts hb hback
  backtracks hb hback _ _ := h.run_backtracks hb hback
  stays hb hback _ _ := h.run_stays hb hback
  refused hb _ _ := h.run_refused hb

end Automaton

namespace C.Recognizer

variable {σ κ : Type} {r : Recognizer σ κ} {c stop : Cursor} {lexeme : List UInt8} {s : σ}

lemma scan_of_ok (h : r.automaton.run c = (.ok s, stop)) (hpasses : c.Passes lexeme stop) :
    r.scan c = (r.build s lexeme (c.spanTo stop), stop) := by
  simp only [scan, h, hpasses.sliceTo]

lemma scan_of_error {f : Automaton.Fault} (h : r.automaton.run c = (.error f, stop)) :
    r.scan c = (.error (.ofFault f), stop) := by
  simp only [scan, h]

end C.Recognizer

end Ramify
