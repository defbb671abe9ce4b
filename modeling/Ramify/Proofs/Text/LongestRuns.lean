import Ramify.C.Recognizer
import Ramify.Proofs.Text.Outcomes

namespace Ramify

namespace Automaton

variable {σ κ : Type} (A : Automaton σ κ)

def Concerns (s : σ) (k : κ) : Prop := A.forbids s k = true ∨ (A.edge s k).isSome = true

def Decides (s : σ) (b : UInt8) (k : κ) : Prop := ∃ before holds after, A.conditions = before ++ (k, holds) :: after ∧
  holds b = true ∧ A.Concerns s k ∧ ∀ other ∈ before, other.2 b = true → ¬ A.Concerns s other.1

variable {A} {s t u : σ} {k : κ} {b : UInt8} {bytes lexeme rest : List UInt8}

lemma concerns_iff : A.Concerns s k ↔
    (if A.forbids s k then some .forbidden else (A.edge s k).map Next.goto) ≠ none := by
  by_cases h : A.forbids s k = true <;> simp [Concerns, h, Option.isSome_iff_ne_none]

lemma next_eq_iff {result : Next σ} (h : result ≠ .stuck) : A.next s b = result ↔ ∃ k, A.Decides s b k ∧
    (if A.forbids s k then some .forbidden else (A.edge s k).map .goto) = some result := by
  rw [next, Option.getD_eq_iff]
  simp only [h.symm, and_false, or_false, List.findSome?_eq_some_iff]
  constructor
  · rintro ⟨before, ⟨k, holds⟩, after, hsplit, hfound, hbefore⟩
    have hholds : holds b = true := by
      by_contra hnot
      simp [hnot] at hfound
    simp only [hholds, Bool.not_true, Bool.false_eq_true, if_false] at hfound
    refine ⟨k, ⟨before, holds, after, hsplit, hholds, ?_, ?_⟩, hfound⟩
    · rw [concerns_iff, hfound]
      simp
    · intro other hmem hother
      have hnone := hbefore other hmem
      simp only [hother, Bool.not_true, Bool.false_eq_true, if_false] at hnone
      rwa [concerns_iff, not_not]
  · rintro ⟨k, ⟨before, holds, after, hsplit, hholds, _, hbefore⟩, hfound⟩
    refine ⟨before, (k, holds), after, hsplit, ?_, ?_⟩
    · simpa [hholds] using hfound
    · intro other hmem
      by_cases hother : other.2 b = true
      · have hnone := hbefore other hmem hother
        rw [concerns_iff, not_not] at hnone
        simpa [hother] using hnone
      · simp [hother]

lemma next_eq_goto_iff : A.next s b = .goto t ↔
    ∃ k, A.Decides s b k ∧ A.forbids s k = false ∧ A.edge s k = some t := by
  rw [next_eq_iff (by simp)]
  apply exists_congr
  intro k
  by_cases h : A.forbids s k = true <;> simp [h]

lemma next_eq_forbidden_iff : A.next s b = .forbidden ↔ ∃ k, A.Decides s b k ∧ A.forbids s k = true := by
  rw [next_eq_iff (by simp)]
  apply exists_congr
  intro k
  by_cases h : A.forbids s k = true <;> simp [h]

lemma Path.unique (h : A.Path s bytes t) (h' : A.Path s bytes u) : t = u := by
  induction h with
  | nil =>
    cases h'
    rfl
  | cons hnext _ ih =>
    cases h' with
    | cons hnext' h' =>
      rw [hnext] at hnext'
      cases hnext'
      exact ih h'

lemma path_concat_iff : A.Path s (bytes ++ [b]) u ↔ ∃ t, A.Path s bytes t ∧ A.next t b = .goto u := by
  constructor
  · intro h
    induction bytes generalizing s with
    | nil =>
      cases h with
      | cons hnext hnil =>
        cases hnil
        exact ⟨s, .nil, hnext⟩
    | cons a bytes ih =>
      cases h with
      | cons hnext h =>
        obtain ⟨t, hpath, hlast⟩ := ih h
        exact ⟨t, .cons hnext hpath, hlast⟩
  · rintro ⟨t, hpath, hnext⟩
    exact hpath.append (.cons hnext .nil)

lemma Path.invariant {P : List UInt8 → σ → Prop} (hstart : P [] A.start)
    (hstep : ∀ {word b s t}, P word s → A.next s b = .goto t → P (word ++ [b]) t) (h : A.Path A.start bytes s) :
    P bytes s := by
  induction bytes using List.reverseRecOn generalizing s with
  | nil =>
    cases h
    exact hstart
  | append_singleton bytes b ih =>
    obtain ⟨t, hpath, hnext⟩ := path_concat_iff.mp h
    exact hstep (ih hpath) hnext

lemma path_loop (h : ∀ b ∈ bytes, A.next s b = .goto s) : A.Path s bytes s := by
  induction bytes with
  | nil => exact .nil
  | cons b bytes ih =>
    rw [List.forall_mem_cons] at h
    exact .cons h.1 (ih h.2)

structure Furthest (A : Automaton σ κ) (bytes lexeme : List UInt8) (s : σ) : Prop where
  path : A.Path A.start lexeme s
  ends : ∃ rest, bytes = lexeme ++ rest ∧ ∀ b ∈ rest.head?, ∀ t, A.next s b ≠ .goto t

lemma exists_path (A : Automaton σ κ) (s : σ) (bytes : List UInt8) : ∃ lexeme rest t, bytes = lexeme ++ rest ∧
    A.Path s lexeme t ∧ ∀ b ∈ rest.head?, ∀ u, A.next t b ≠ .goto u := by
  induction bytes generalizing s with
  | nil => exact ⟨[], [], s, rfl, .nil, by simp⟩
  | cons b bytes ih =>
    by_cases hnext : ∃ t, A.next s b = .goto t
    · obtain ⟨t, hnext⟩ := hnext
      obtain ⟨lexeme, rest, u, rfl, hpath, hends⟩ := ih t
      exact ⟨b :: lexeme, rest, u, rfl, .cons hnext hpath, hends⟩
    · exact ⟨[], b :: bytes, s, rfl, .nil, by simpa using hnext⟩

lemma exists_furthest (A : Automaton σ κ) (bytes : List UInt8) : ∃ lexeme s, A.Furthest bytes lexeme s := by
  obtain ⟨lexeme, rest, s, hbytes, hpath, hends⟩ := A.exists_path A.start bytes
  exact ⟨lexeme, s, hpath, rest, hbytes, hends⟩

lemma Path.walk_append (h : A.Path s lexeme t) (hends : ∀ b ∈ rest.head?, ∀ u, A.next t b ≠ .goto u) :
    (A.walk s (lexeme ++ rest)).edges.length = lexeme.length ∧ (A.walk s (lexeme ++ rest)).last s = t ∧
      ((A.walk s (lexeme ++ rest)).forbidden = true ↔ ∃ b ∈ rest.head?, A.next t b = .forbidden) := by
  induction h with
  | @nil s =>
    cases rest with
    | nil => simp [Automaton.walk, Walk.last]
    | cons b rest =>
      cases hnext : A.next s b with
      | goto t => exact absurd hnext (hends b rfl t)
      | forbidden => simp [Automaton.walk, Walk.last, hnext]
      | stuck => simp [Automaton.walk, Walk.last, hnext]
  | @cons s t u b lexeme hnext _ ih =>
    obtain ⟨hlength, hlast, hforbidden⟩ := ih hends
    refine ⟨?_, ?_, ?_⟩
    · simp [Automaton.walk, hnext, hlength]
    · rw [← hlast, Walk.last, Walk.last, List.cons_append, Automaton.walk, hnext, List.getLast?_cons]
      cases (A.walk t (lexeme ++ rest)).edges.getLast? <;> rfl
    · simpa [Automaton.walk, hnext] using hforbidden

lemma Furthest.walk (h : A.Furthest bytes lexeme s) : (A.walk A.start bytes).edges.length = lexeme.length ∧
    (A.walk A.start bytes).last A.start = s ∧
      ((A.walk A.start bytes).forbidden = true ↔ ∃ b ∈ bytes[lexeme.length]?, A.next s b = .forbidden) := by
  obtain ⟨hpath, rest, rfl, hends⟩ := h
  simpa [List.getElem?_append_right, ← List.head?_eq_getElem?] using hpath.walk_append hends

lemma Furthest.unique {lexeme' : List UInt8} (h : A.Furthest bytes lexeme s) (h' : A.Furthest bytes lexeme' t) :
    lexeme = lexeme' ∧ s = t := by
  have hlength : lexeme.length = lexeme'.length := h.walk.1.symm.trans h'.walk.1
  refine ⟨?_, h.walk.2.1.symm.trans h'.walk.2.1⟩
  obtain ⟨rest, hbytes, _⟩ := h.ends
  obtain ⟨rest', hbytes', _⟩ := h'.ends
  exact (List.append_inj (hbytes.symm.trans hbytes') hlength).1

lemma exists_edge (h : A.next s b = .goto t) :
    ∃ condition ∈ A.conditions, condition.2 b = true ∧ A.edge s condition.1 = some t := by
  obtain ⟨k, ⟨before, holds, after, hsplit, hholds, _⟩, _, hedge⟩ := next_eq_goto_iff.mp h
  exact ⟨(k, holds), by simp [hsplit], hholds, hedge⟩

lemma next_ne_forbidden (h : ∀ c, A.forbids s c = false) (b : UInt8) : A.next s b ≠ .forbidden := by
  intro hnext
  obtain ⟨k, _, hforbids⟩ := next_eq_forbidden_iff.mp hnext
  simp [h k] at hforbids

section Outcome

variable (h : A.Furthest bytes lexeme s)

include h

lemma Furthest.outcome_forbidden (hb : ∃ b ∈ bytes[lexeme.length]?, A.next s b = .forbidden) :
    A.outcome bytes = (.error .invalidCharacter, lexeme.length + 1) := by
  obtain ⟨hlength, _, hforbidden⟩ := h.walk
  rw [Automaton.outcome, if_pos (hforbidden.mpr hb), hlength]

lemma Furthest.outcome_eq (hb : ∀ b ∈ bytes[lexeme.length]?, A.next s b ≠ .forbidden) : A.outcome bytes =
    match (if A.accepts s then some (s, lexeme.length)
      else if A.backtracks then A.lastAccepting? A.start (A.walk A.start bytes).edges else none) with
    | some (t, n) => (.ok t, n)
    | none => (.error .unidentifiedToken, lexeme.length) := by
  obtain ⟨hlength, hlast, hforbidden⟩ := h.walk
  have hallowed : ¬ (A.walk A.start bytes).forbidden = true := by
    rw [hforbidden]
    rintro ⟨b, hmem, hnext⟩
    exact hb b hmem hnext
  rw [Automaton.outcome, if_neg hallowed, hlength, hlast]
  by_cases hs : A.accepts s = true
  · simp [hs]
  · simp only [hs]
    rfl

lemma Furthest.outcome (hquiet : ∀ c, A.forbids s c = false) (hback : A.backtracks = false) :
    A.outcome bytes = (if A.accepts s then .ok s else .error .unidentifiedToken, lexeme.length) := by
  rw [h.outcome_eq fun b _ => next_ne_forbidden hquiet b, hback]
  by_cases hs : A.accepts s = true <;> simp [hs]

end Outcome

end Automaton

lemma C.Recognizer.scan_of_furthest {σ κ : Type} {r : C.Recognizer σ κ} {c : Cursor} {lexeme : List UInt8} {s : σ}
    (h : r.automaton.Furthest c.rest lexeme s) (hquiet : ∀ k, r.automaton.forbids s k = false)
    (hback : r.automaton.backtracks = false) :
    r.scan c = (if r.automaton.accepts s then r.build s lexeme (c.spanTo (c.skip lexeme.length))
      else .error ⟨.unidentifiedToken, c.spanTo (c.skip lexeme.length)⟩, c.skip lexeme.length) := by
  have htake : c.rest.take lexeme.length = lexeme := by
    obtain ⟨rest, hrest, _⟩ := h.ends
    simp [hrest]
  rw [scan, Automaton.run_eq, h.outcome hquiet hback]
  by_cases haccepts : r.automaton.accepts s = true
  · simp [haccepts, Except.mapError, Cursor.sliceTo_skip, htake]
  · simp [haccepts, Except.mapError, LexError.ofFault]

end Ramify
