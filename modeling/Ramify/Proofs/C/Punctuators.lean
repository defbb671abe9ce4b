import Ramify.C.Punctuation
import Ramify.Proofs.Text.MaximalMunch

namespace Ramify.C.Punctuation

inductive Spells : List UInt8 → Punctuator → Prop
  | single {c : Char} {p : Punctuator} : (c, p) ∈ single → Spells [c.toUInt8] p
  | longer {word : List UInt8} {p q : Punctuator} {c : Char} : Spells word p → longer p c = some q →
      Spells (word ++ [c.toUInt8]) q
  | ellipsis : Spells [46, 46, 46] .ellipsis

structure LongestSpelled (bytes word : List UInt8) (p : Punctuator) : Prop where
  within : word <+: bytes
  spells : Spells word p
  longest : ∀ other q, other <+: bytes → Spells other q → other.length ≤ word.length

def Way (word : List UInt8) : State → Prop
  | .start => word = []
  | .dotDot => word = [46, 46]
  | .kind p => Spells word p

variable {s t : State} {p q : Punctuator} {c : Char} {b : UInt8} {word bytes : List UInt8}

lemma toUInt8_nodup : (single.map fun row => row.1.toUInt8).Nodup := by decide

lemma mem_of_longer (h : longer p c = some q) : c ∈ single.map Prod.fst := by
  unfold longer at h
  split at h <;> first | decide | cases h

lemma conditions_eq : automaton.conditions = single.map fun row => (row.1, (· == row.1.toUInt8)) := rfl

lemma next_of_edge (hc : c ∈ single.map Prod.fst) (h : automaton.edge s c = some t) :
    automaton.next s c.toUInt8 = .goto t := by
  obtain ⟨⟨c, p⟩, hmem, rfl⟩ := List.mem_map.mp hc
  obtain ⟨before, after, hsplit⟩ := List.append_of_mem hmem
  have hconditions := conditions_eq
  rw [hsplit, List.map_append, List.map_cons] at hconditions
  apply Automaton.next_eq_goto_iff.mpr
  refine ⟨c, ⟨_, _, _, hconditions, beq_self_eq_true _, Or.inr (Option.isSome_of_eq_some h), ?_⟩, rfl, h⟩
  intro other hother hholds
  obtain ⟨row, hrow, rfl⟩ := List.mem_map.mp hother
  have hnodup := toUInt8_nodup
  simp only [hsplit, List.map_append, List.map_cons, List.nodup_append] at hnodup
  exact absurd (eq_of_beq hholds).symm (hnodup.2.2 _ (List.mem_map_of_mem hrow) _ List.mem_cons_self)

lemma edge_of_next (h : automaton.next s b = .goto t) : ∃ c, b = c.toUInt8 ∧ automaton.edge s c = some t := by
  obtain ⟨condition, hmem, hholds, hedge⟩ := Automaton.exists_edge h
  rw [conditions_eq] at hmem
  obtain ⟨row, _, rfl⟩ := List.mem_map.mp hmem
  exact ⟨row.1, eq_of_beq hholds, hedge⟩

lemma mem_single_iff : (c, p) ∈ single ↔ single.lookup c = some p := by
  constructor
  · have hall : single.all fun row => single.lookup row.1 == some row.2 := by decide
    intro hmem
    exact eq_of_beq (List.all_eq_true.mp hall (c, p) hmem)
  · intro h
    obtain ⟨before, after, hsplit, _⟩ := List.lookup_eq_some_iff.mp h
    simp [hsplit]

lemma Spells.eq_of_dot (h : Spells word .dot) : word = [46] := by
  cases h with
  | single hmem =>
    have hdot : Punctuation.single.all fun row => row.2 != .dot || row.1.toUInt8 == 46 := by decide
    simpa using List.all_eq_true.mp hdot _ hmem
  | longer _ h =>
    unfold Punctuation.longer at h
    split at h <;> cases h

lemma edge_kind (hp : p ≠ .dot) : automaton.edge (.kind p) c = (longer p c).map .kind := by
  cases p <;> first | rfl | exact absurd rfl hp

lemma Way.step (h : Way word s) (hedge : automaton.edge s c = some t) : Way (word ++ [c.toUInt8]) t := by
  cases s with
  | start =>
    obtain ⟨p, hp, rfl⟩ := Option.map_eq_some_iff.mp hedge
    obtain rfl : word = [] := h
    exact .single (mem_single_iff.mpr hp)
  | dotDot =>
    obtain ⟨rfl, ht⟩ := Option.ite_none_right_eq_some.mp hedge
    cases ht
    obtain rfl : word = [46, 46] := h
    exact .ellipsis
  | kind p =>
    by_cases hp : p = .dot
    · subst hp
      obtain ⟨rfl, ht⟩ := Option.ite_none_right_eq_some.mp hedge
      cases ht
      rw [Spells.eq_of_dot h]
      rfl
    · rw [edge_kind hp] at hedge
      obtain ⟨q, hq, rfl⟩ := Option.map_eq_some_iff.mp hedge
      exact .longer h hq

lemma way_of_path (h : automaton.Path .start word s) : Way word s := by
  have hstart : Way [] .start := rfl
  refine h.invariant (P := Way) hstart fun hway hnext => ?_
  obtain ⟨c, rfl, hedge⟩ := edge_of_next hnext
  exact hway.step hedge

lemma Spells.path (h : Spells word p) : automaton.Path .start word (.kind p) := by
  induction h with
  | single hmem =>
    refine .cons (next_of_edge (List.mem_map_of_mem hmem) ?_) .nil
    simp [automaton, mem_single_iff.mp hmem]
  | @longer _ p q c _ hlonger ih =>
    have hp : p ≠ .dot := by
      rintro rfl
      cases hlonger
    refine ih.append (.cons (next_of_edge (mem_of_longer hlonger) ?_) .nil)
    rw [edge_kind hp, hlonger]
    rfl
  | ellipsis => exact .cons rfl (.cons rfl (.cons rfl .nil))

lemma path_kind_iff : automaton.Path .start word (.kind p) ↔ Spells word p :=
  ⟨way_of_path, Spells.path⟩

lemma accepts_iff : automaton.accepts s = true ↔ ∃ p, s = .kind p := by
  cases s <;> simp [automaton]

lemma longestAccepted_iff :
    automaton.LongestAccepted .start bytes word (.kind p) ↔ LongestSpelled bytes word p := by
  constructor
  · intro h
    refine ⟨h.within, path_kind_iff.mp h.path, fun other q hother hspells => ?_⟩
    exact h.longest other (.kind q) hother hspells.path rfl
  · intro h
    refine ⟨h.within, h.spells.path, rfl, fun other u hother hpath haccepts => ?_⟩
    obtain ⟨q, rfl⟩ := accepts_iff.mp haccepts
    exact h.longest other q hother (path_kind_iff.mp hpath)

lemma run_iff {c stop : Cursor} : automaton.run c = (.ok s, stop) ↔
    ∃ p word, s = .kind p ∧ LongestSpelled c.rest word p ∧ c.Passes word stop := by
  obtain ⟨lexeme, end_, h⟩ := automaton.exists_furthest c.rest
  have hallowed : ∀ b ∈ c.rest[lexeme.length]?, automaton.next end_ b ≠ .forbidden := fun b _ =>
    Automaton.next_ne_forbidden (fun _ => rfl) b
  rw [h.run_backtracks hallowed rfl]
  constructor
  · rintro ⟨front, hfront, hpasses⟩
    obtain ⟨p, rfl⟩ := accepts_iff.mp hfront.accepts
    exact ⟨p, front, rfl, longestAccepted_iff.mp (h.longestAccepted_iff.mpr hfront), hpasses⟩
  · rintro ⟨p, word, rfl, hlongest, hpasses⟩
    exact ⟨word, h.longestAccepted_iff.mp (longestAccepted_iff.mpr hlongest), hpasses⟩

section Scan

variable {c stop : Cursor} {token : Token}

lemma scan_ok_iff : recognizer.scan c = (.ok token, stop) ↔ ∃ p word, LongestSpelled c.rest word p ∧
    c.Passes word stop ∧ token = ⟨.punctuator p, asciiText word, c.spanTo stop, none⟩ := by
  constructor
  · intro h
    rcases hrun : automaton.run c with ⟨f | s, d⟩
    · rw [Recognizer.scan_of_error (r := recognizer) hrun] at h
      cases h
    · obtain ⟨p, word, rfl, hlongest, hpasses⟩ := run_iff.mp hrun
      rw [Recognizer.scan_of_ok (r := recognizer) hrun hpasses] at h
      cases h
      exact ⟨p, word, hlongest, hpasses, rfl⟩
  · rintro ⟨p, word, hlongest, hpasses, rfl⟩
    have hrun := run_iff.mpr ⟨p, word, rfl, hlongest, hpasses⟩
    exact Recognizer.scan_of_ok (r := recognizer) hrun hpasses

lemma exists_longestSpelled (hspells : Spells word p) (hword : word <+: bytes) :
    ∃ longest q, LongestSpelled bytes longest q := by
  rcases automaton.exists_longestAccepted .start bytes with ⟨front, t, hfront⟩ | hnone
  · obtain ⟨q, rfl⟩ := accepts_iff.mp hfront.accepts
    exact ⟨front, q, longestAccepted_iff.mp hfront⟩
  · cases hnone word (.kind p) hword hspells.path

lemma scan_error_iff : (∃ e stop, recognizer.scan c = (.error e, stop)) ↔
    ∀ word p, word <+: c.rest → ¬ Spells word p := by
  constructor
  · rintro ⟨e, stop, hscan⟩ word p hword hspells
    obtain ⟨longest, q, hlongest⟩ := exists_longestSpelled hspells hword
    rw [scan_ok_iff.mpr ⟨q, longest, hlongest, Cursor.passes_skip hlongest.within, rfl⟩] at hscan
    cases hscan
  · intro hnone
    rcases hscan : recognizer.scan c with ⟨e | token, stop⟩
    · exact ⟨e, stop, rfl⟩
    · obtain ⟨p, word, hlongest, _⟩ := scan_ok_iff.mp hscan
      exact absurd hlongest.spells (hnone word p hlongest.within)

end Scan

/-- Maximal munch. The first condition that holds for a byte and concerns the state decides about it; the longest run
of edges decides how a run of any automaton ends, and one that backtracks ends behind the longest prefix at which it
accepts. So the punctuator read is the longest that the bytes begin with, and there is none only where they begin
with none. -/
theorem maximal_munch :
    (∀ {σ κ : Type} (A : Automaton σ κ) (s t : σ) (b : UInt8),
      (A.next s b = .goto t ↔ ∃ k, A.Decides s b k ∧ A.forbids s k = false ∧ A.edge s k = some t) ∧
      (A.next s b = .forbidden ↔ ∃ k, A.Decides s b k ∧ A.forbids s k = true)) ∧
    (∀ {σ κ : Type} (A : Automaton σ κ) (c : Cursor), ∃ lexeme s, A.Munches c lexeme s) ∧
    (∀ c token stop, recognizer.scan c = (.ok token, stop) ↔ ∃ p word, LongestSpelled c.rest word p ∧
      c.Passes word stop ∧ token = ⟨.punctuator p, asciiText word, c.spanTo stop, none⟩) ∧
    ∀ c, (∃ e stop, recognizer.scan c = (.error e, stop)) ↔ ∀ word p, word <+: c.rest → ¬ Spells word p := by
  refine ⟨fun A s t b => ⟨Automaton.next_eq_goto_iff, Automaton.next_eq_forbidden_iff⟩, fun A c => ?_,
    fun c token stop => scan_ok_iff, fun c => scan_error_iff⟩
  obtain ⟨lexeme, s, hfurthest⟩ := A.exists_furthest c.rest
  exact ⟨lexeme, s, hfurthest.munches⟩

end Ramify.C.Punctuation
