import Ramify.Proofs.Text.Outcomes

namespace Ramify

/-- The place behind some bytes: one line more than there are newlines, and in it one column more than
there are bytes since the last newline. -/
def Position.behind (bytes : List UInt8) : Position :=
  ⟨1 + bytes.count 10, 1 + (bytes.reverse.takeWhile (· != 10)).length⟩

lemma Position.behind_concat (bytes : List UInt8) (b : UInt8) :
    behind (bytes ++ [b]) = (behind bytes).after b := by
  by_cases hb : b = 10 <;> simp [behind, after, hb, Nat.add_comm]

lemma Position.foldl_after_behind (before bytes : List UInt8) :
    bytes.foldl after (behind before) = behind (before ++ bytes) := by
  induction bytes generalizing before with
  | nil => simp
  | cons b bytes ih => rw [List.foldl_cons, ← behind_concat, ih, List.append_assoc, List.singleton_append]

structure Mark where
  offset : Nat
  position : Position
deriving DecidableEq

namespace Cursor

def mark (c : Cursor) : Mark := ⟨c.offset, c.position⟩

def reset (c : Cursor) (m : Mark) : Cursor :=
  let source := c.past.reverse ++ c.rest
  ⟨(source.take m.offset).reverse, source.drop m.offset, m.offset, m.position⟩

inductive Reached (source : List UInt8) : Cursor → List Mark → Prop
  | start : Reached source (ofBytes source) []
  | advance {c : Cursor} {marks : List Mark} : Reached source c marks → Reached source c.advance marks
  | mark {c : Cursor} {marks : List Mark} : Reached source c marks → Reached source c (c.mark :: marks)
  | reset {c : Cursor} {marks : List Mark} {m : Mark} : Reached source c marks → m ∈ marks →
      Reached source (c.reset m) marks

section

variable {source : List UInt8} {c : Cursor} {marks : List Mark} {n : Nat}

lemma past_append_rest_skip (c : Cursor) (n : Nat) :
    (c.skip n).past.reverse ++ (c.skip n).rest = c.past.reverse ++ c.rest := by
  induction n generalizing c with
  | zero => rfl
  | succ n ih =>
    cases h : c.rest with
    | nil => simp [skip, atEnd, h]
    | cons b rest =>
      rw [skip, atEnd, h, List.isEmpty_cons, if_neg Bool.false_ne_true, ih]
      simp [Cursor.advance, h]

lemma offset_start (hn : n ≤ source.length) : ((ofBytes source).skip n).offset = n := by
  rw [offset_skip, ofBytes, Nat.zero_add, Nat.min_eq_left hn]

lemma position_start (source : List UInt8) (n : Nat) :
    ((ofBytes source).skip n).position = .behind (source.take n) := by
  rw [position_skip, ofBytes]
  exact Position.foldl_after_behind [] (source.take n)

lemma past_start (source : List UInt8) (n : Nat) : ((ofBytes source).skip n).past = (source.take n).reverse := by
  have hsplit := past_append_rest_skip (ofBytes source) n
  rw [rest_skip] at hsplit
  have hsource : ((ofBytes source).skip n).past.reverse ++ source.drop n = source.take n ++ source.drop n := by
    rw [List.take_append_drop]
    exact hsplit
  rw [← List.append_cancel_right hsource, List.reverse_reverse]

lemma reset_mark (hn : n ≤ source.length) (m : Nat) :
    ((ofBytes source).skip m).reset ((ofBytes source).skip n).mark = (ofBytes source).skip n := by
  have hsource := past_append_rest_skip (ofBytes source) m
  have hpast := past_start source n
  have hrest := rest_skip (ofBytes source) n
  have hoffset := offset_start hn
  rw [ofBytes, List.reverse_nil, List.nil_append] at hsource
  generalize (ofBytes source).skip n = stop at *
  cases stop
  simp_all [reset, Cursor.mark, ofBytes]

lemma mark_start (hn : n ≤ source.length) :
    ((ofBytes source).skip n).mark = ⟨n, .behind (source.take n)⟩ := by
  rw [Cursor.mark, offset_start hn, position_start]

lemma skip_start_of_le (hn : source.length ≤ n) : (ofBytes source).skip n = (ofBytes source).skip source.length := by
  obtain ⟨k, rfl⟩ := Nat.exists_eq_add_of_le hn
  rw [← skip_skip]
  have hrest : ((ofBytes source).skip source.length).rest = [] := by
    rw [rest_skip, ofBytes, List.drop_length]
  cases k with
  | zero => rfl
  | succ k => rw [skip, atEnd, hrest, List.isEmpty_nil, if_pos rfl]

lemma exists_skip_start (source : List UInt8) (n : Nat) :
    ∃ k ≤ source.length, (ofBytes source).skip n = (ofBytes source).skip k := by
  rcases Nat.le_total n source.length with hn | hn
  · exact ⟨n, hn, rfl⟩
  · exact ⟨_, le_rfl, skip_start_of_le hn⟩

lemma Reached.eq_skip (h : Reached source c marks) :
    (∃ n ≤ source.length, c = (ofBytes source).skip n) ∧
      ∀ m ∈ marks, ∃ n ≤ source.length, m = ((ofBytes source).skip n).mark := by
  induction h with
  | start => exact ⟨⟨0, Nat.zero_le _, rfl⟩, nofun⟩
  | advance _ ih =>
    obtain ⟨⟨n, _, rfl⟩, hmarks⟩ := ih
    refine ⟨?_, hmarks⟩
    rw [advance_eq_skip, skip_skip]
    exact exists_skip_start source (n + 1)
  | mark _ ih =>
    obtain ⟨⟨n, hn, rfl⟩, hmarks⟩ := ih
    refine ⟨⟨n, hn, rfl⟩, fun m hm => ?_⟩
    rcases List.mem_cons.mp hm with rfl | hm
    · exact ⟨n, hn, rfl⟩
    · exact hmarks m hm
  | reset _ hm ih =>
    obtain ⟨⟨k, _, rfl⟩, hmarks⟩ := ih
    obtain ⟨n, hn, rfl⟩ := hmarks _ hm
    exact ⟨⟨n, hn, reset_mark hn k⟩, hmarks⟩

lemma Reached.skip (h : Reached source c marks) (n : Nat) : Reached source (c.skip n) marks := by
  induction n generalizing c with
  | zero => exact h
  | succ n ih =>
    rw [Cursor.skip]
    split
    · exact h
    · exact ih h.advance

lemma Reached.run {σ κ : Type} (h : Reached source c marks) (A : Automaton σ κ) :
    Reached source (A.run c).2 marks := by
  rw [A.run_eq]
  exact h.skip _

lemma behind_lt_behind {m n : Nat} (hlt : m < n) (hn : n ≤ source.length) :
    Position.behind (source.take m) < .behind (source.take n) := by
  obtain ⟨k, rfl⟩ := Nat.exists_eq_add_of_lt hlt
  have hrest : ((ofBytes source).skip m).rest.length = source.length - m := by
    rw [rest_skip, List.length_drop]
    rfl
  rw [← position_start, ← position_start, Nat.add_assoc, ← skip_skip]
  exact position_lt_skip _ (Nat.succ_pos k) (by omega)

/-- The position of a cursor and of each of its marks is that of the bytes before the offset, and grows with it. -/
theorem position_of_offset (h : Reached source c marks) :
    c.offset ≤ source.length ∧ c.peek? = source[c.offset]? ∧
    c.position.line = 1 + (source.take c.offset).count 10 ∧
    c.position.column = 1 + ((source.take c.offset).reverse.takeWhile (· != 10)).length ∧
    (∀ m ∈ marks, m.offset ≤ source.length ∧ m.position = .behind (source.take m.offset)) ∧
    (∀ m ∈ c.mark :: marks, ∀ m' ∈ c.mark :: marks,
      (m.offset = m'.offset → m.position = m'.position) ∧ (m.offset < m'.offset → m.position < m'.position)) ∧
    ∀ (σ κ : Type) (A : Automaton σ κ), Reached source (A.run c).2 marks := by
  have htold : ∀ m ∈ c.mark :: marks, m.offset ≤ source.length ∧ m.position = .behind (source.take m.offset) := by
    intro m hm
    obtain ⟨n, hn, rfl⟩ := h.mark.eq_skip.2 m hm
    rw [mark_start hn]
    exact ⟨hn, rfl⟩
  obtain ⟨hle, hposition⟩ := htold c.mark List.mem_cons_self
  have hpeek : c.peek? = source[c.offset]? := by
    obtain ⟨⟨n, hn, rfl⟩, _⟩ := h.eq_skip
    rw [peek?, rest_skip, offset_start hn, ofBytes, List.head?_drop]
  refine ⟨hle, hpeek, congrArg Position.line hposition, congrArg Position.column hposition,
    fun m hm => htold m (List.mem_cons_of_mem _ hm), fun m hm m' hm' => ⟨fun heq => ?_, fun hlt => ?_⟩,
    fun σ κ A => h.run A⟩
  · rw [(htold m hm).2, (htold m' hm').2, heq]
  · rw [(htold m hm).2, (htold m' hm').2]
    exact behind_lt_behind hlt (htold m' hm').1

theorem position_of_offset_reset : ∃ c m m', Reached [120, 10, 10, 121] c [m, m'] ∧ c.offset = 1 ∧
    c.position = ⟨1, 2⟩ ∧ m.offset = 3 ∧ c.position < m.position := by
  have hfirst : Reached [120, 10, 10, 121] ((ofBytes [120, 10, 10, 121]).skip 1) _ := (Reached.start.skip 1).mark
  have hback := (hfirst.skip 2).mark.reset (List.mem_cons_of_mem _ List.mem_cons_self)
  obtain ⟨_, _, _, _, _, hmarks, _⟩ := position_of_offset hback
  refine ⟨_, _, _, hback, rfl, rfl, rfl, ?_⟩
  exact (hmarks _ List.mem_cons_self _ (List.mem_cons_of_mem _ List.mem_cons_self)).2 (by decide)

end

end Cursor

end Ramify
