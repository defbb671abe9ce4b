import Mathlib

/-! Lists of numbers, sets of numbers as the bits of a number, rows of such sets in one number, and values
with sets as keys. The operations are those that the kernel computes at once, and what is looked for in an index is
looked for below the nodes only whose keys have something in common with it. -/

namespace Ramify.Bits

def disjoint (a b : Nat) : Bool := (a &&& b).beq 0

def within (a b : Nat) : Bool := (a &&& b).beq a

def without (set b : Nat) : Nat := set ^^^ (set &&& 1 <<< b)

def row (width table k : Nat) : Nat := (table >>> (width * k)) &&& (1 <<< width - 1)

def tabulate (width : Nat) : List (Nat × Nat) → Nat
  | [] => 0
  | e :: rest => 1 <<< (width * e.1 + e.2) ||| tabulate width rest

def pack (width : Nat) : List Nat → Nat
  | [] => 0
  | s :: rest => s ||| pack width rest <<< width

def union : List (Nat × Nat) → Nat
  | [] => 0
  | e :: rest => e.2 ||| union rest

def listed (k : Nat) : List Nat → Bool
  | [] => false
  | k' :: rest => bif k.beq k' then true else listed k rest

def find (k : Nat) : List Nat → Nat
  | [] => 0
  | k' :: rest => bif k'.beq k then 0 else find k rest + 1

def occurrences (k : Nat) : List Nat → Nat
  | [] => 0
  | k' :: rest => bif k'.beq k then occurrences k rest + 1 else occurrences k rest

def unrepeated : List Nat → Bool
  | [] => true
  | k :: rest => bif listed k rest then false else unrepeated rest

section Sets

variable {a b i : Nat}

lemma testBit_one_shiftLeft : (1 <<< a).testBit i = true ↔ a = i := by
  rw [Nat.shiftLeft_eq, one_mul, Nat.testBit_two_pow, decide_eq_true_eq]

lemma not_disjoint (ha : a.testBit i = true) (hb : b.testBit i = true) : disjoint a b = false := by
  rw [disjoint, Bool.eq_false_iff]
  intro h
  have hbit : (a &&& b).testBit i = true := by rw [Nat.testBit_and, ha, hb, Bool.and_true]
  rw [Nat.eq_of_beq_eq_true h, Nat.zero_testBit] at hbit
  cases hbit

lemma testBit_of_disjoint (h : disjoint a b = true) (ha : a.testBit i = true) : b.testBit i = false :=
  Bool.eq_false_iff.mpr fun hb => Bool.false_ne_true ((not_disjoint ha hb).symm.trans h)

lemma not_disjoint_single (ha : a.testBit i = true) : disjoint a (1 <<< i) = false :=
  not_disjoint ha (testBit_one_shiftLeft.mpr rfl)

lemma testBit_of_within (h : within a b = true) (ha : a.testBit i = true) : b.testBit i = true := by
  rw [← Nat.eq_of_beq_eq_true h, Nat.testBit_and, Bool.and_eq_true] at ha
  exact ha.2

lemma within_of_testBit (h : ∀ i, a.testBit i = true → b.testBit i = true) : within a b = true := by
  rw [within, Nat.beq_eq]
  refine Nat.eq_of_testBit_eq fun i => ?_
  rw [Nat.testBit_and]
  cases ha : a.testBit i with
  | false => rfl
  | true => rw [h i ha, Bool.true_and]

lemma testBit_without (ha : a.testBit i = true) (hne : i ≠ b) : (without a b).testBit i = true := by
  have hb : (1 <<< b).testBit i = false := Bool.eq_false_iff.mpr fun h => hne (testBit_one_shiftLeft.mp h).symm
  rw [without, Nat.testBit_xor, Nat.testBit_and, ha, hb]
  rfl

lemma testBit_row {width table k : Nat} :
    (row width table k).testBit i = (table.testBit (width * k + i) && decide (i < width)) := by
  rw [row, Nat.testBit_and, Nat.testBit_shiftRight, Nat.shiftLeft_eq, one_mul, Nat.testBit_two_pow_sub_one]

lemma testBit_row_of_within {width k : Nat} (h : within a b = true) (ha : (row width a k).testBit i = true) :
    (row width b k).testBit i = true := by
  rw [testBit_row, Bool.and_eq_true] at ha ⊢
  exact ⟨testBit_of_within h ha.1, ha.2⟩

lemma testBit_row_tabulate {width k : Nat} {l : List (Nat × Nat)} (h : (k, i) ∈ l) (hi : i < width) :
    (row width (tabulate width l) k).testBit i = true := by
  rw [testBit_row, decide_eq_true hi, Bool.and_true]
  induction l with
  | nil => cases h
  | cons e l ih =>
    rw [tabulate, Nat.testBit_or, Bool.or_eq_true]
    rcases List.mem_cons.mp h with rfl | h
    · exact Or.inl (testBit_one_shiftLeft.mpr rfl)
    · exact Or.inr (ih h)

lemma testBit_union {l : List (Nat × Nat)} : (union l).testBit i = true ↔ ∃ e ∈ l, e.2.testBit i = true := by
  induction l with
  | nil => simp [union]
  | cons e l ih => rw [union, Nat.testBit_or, Bool.or_eq_true, ih, List.exists_mem_cons_iff]

end Sets

section Lists

variable {k : Nat} {l : List Nat}

lemma listed_iff : listed k l = true ↔ k ∈ l := by
  induction l with
  | nil => exact iff_of_false Bool.false_ne_true (List.not_mem_nil)
  | cons k' l ih =>
    rw [listed, List.mem_cons, ← ih, ← Nat.beq_eq]
    cases k.beq k' <;> simp

lemma natBeq_eq (k k' : Nat) : k'.beq k = (k' == k) := by rw [Bool.eq_iff_iff, Nat.beq_eq, beq_iff_eq]

lemma find_eq (k : Nat) (l : List Nat) : find k l = l.idxOf k := by
  induction l with
  | nil => rfl
  | cons k' l ih =>
    rw [find, ih, List.idxOf_cons, natBeq_eq]

lemma occurrences_eq (k : Nat) (l : List Nat) : occurrences k l = l.count k := by
  induction l with
  | nil => rfl
  | cons k' l ih =>
    rw [occurrences, List.count_cons, natBeq_eq, ih]
    cases k' == k <;> rfl

lemma nodup_of_unrepeated (h : unrepeated l = true) : l.Nodup := by
  induction l with
  | nil => exact .nil
  | cons k l ih =>
    rw [unrepeated, Bool.cond_eq_ite] at h
    split at h
    · cases h
    · rename_i hnot
      exact List.nodup_cons.mpr ⟨listed_iff.not.mp hnot, ih h⟩

end Lists

/-- Values with sets of numbers as keys. A node has the union of the keys below it. -/
inductive Index (α : Type) where
  | nil
  | node (all key : Nat) (value : α) (left right : Index α)

namespace Index

variable {α : Type}

def all : Index α → Nat
  | nil => 0
  | node all _ _ _ _ => all

def join (key : Nat) (value : α) (left right : Index α) : Index α :=
  node (key ||| (left.all ||| right.all)) key value left right

def halves : Nat → List (Nat × α) → Index α
  | fuel + 1, e :: rest =>
    join e.1 e.2 (halves fuel (rest.take (rest.length / 2))) (halves fuel (rest.drop (rest.length / 2)))
  | _, _ => nil

def ofList (l : List (Nat × α)) : Index α := halves l.length l

def entries : Index α → List (Nat × α)
  | nil => []
  | node _ key value left right => (key, value) :: (left.entries ++ right.entries)

def meeting (m : Nat) : Index α → List (Nat × α) → List (Nat × α)
  | nil, found => found
  | node all key value left right, found =>
    bif disjoint m all then found
    else bif disjoint m key then left.meeting m (right.meeting m found)
    else (key, value) :: left.meeting m (right.meeting m found)

def update (m : Nat) (f : Nat → α → α) : Index α → Index α
  | nil => nil
  | node all key value left right =>
    bif disjoint m all then node all key value left right
    else node all key (bif disjoint m key then value else f key value) (left.update m f) (right.update m f)

def unionMeeting (index : Index Nat) (m : Nat) : Nat := union (index.meeting m [])

def keys (index : Index α) : List Nat := index.entries.map Prod.fst

def Valid : Index α → Prop
  | nil => True
  | node all key _ left right =>
    (∀ k ∈ key :: (left.keys ++ right.keys), within k all = true) ∧ left.Valid ∧ right.Valid

variable {index : Index α} {m : Nat}

lemma keys_node (all key : Nat) (value : α) (left right : Index α) :
    (node all key value left right).keys = key :: (left.keys ++ right.keys) := by
  rw [keys, entries, List.map_cons, List.map_append]
  rfl

lemma Valid.within_all (h : index.Valid) {k : Nat} (hk : k ∈ index.keys) : within k index.all = true := by
  cases index with
  | nil => cases hk
  | node all key value left right =>
    rw [keys_node] at hk
    exact h.1 k hk

lemma Valid.join {left right : Index α} (hl : left.Valid) (hr : right.Valid) (key : Nat) (value : α) :
    (join key value left right).Valid := by
  refine ⟨fun k hk => within_of_testBit fun i hi => ?_, hl, hr⟩
  rw [Nat.testBit_or, Nat.testBit_or]
  rcases List.mem_cons.mp hk with rfl | hk
  · rw [hi, Bool.true_or]
  · rcases List.mem_append.mp hk with hk | hk
    · rw [testBit_of_within (hl.within_all hk) hi, Bool.true_or, Bool.or_true]
    · rw [testBit_of_within (hr.within_all hk) hi, Bool.or_true, Bool.or_true]

lemma mem_halves {fuel : Nat} {l : List (Nat × α)} (h : l.length ≤ fuel) {e : Nat × α} :
    e ∈ (halves fuel l).entries ↔ e ∈ l := by
  induction fuel generalizing l with
  | zero =>
    rw [List.length_eq_zero_iff.mp (Nat.le_zero.mp h)]
    rfl
  | succ fuel ih =>
    cases l with
    | nil => rfl
    | cons e' l =>
      have hlen : l.length ≤ fuel := Nat.le_of_succ_le_succ h
      rw [halves, join, entries, List.mem_cons, List.mem_append, ih ((List.take_sublist _ _).length_le.trans hlen),
        ih ((List.drop_sublist _ _).length_le.trans hlen), ← List.mem_append, List.take_append_drop, List.mem_cons]

lemma mem_ofList {l : List (Nat × α)} {e : Nat × α} : e ∈ (ofList l).entries ↔ e ∈ l := mem_halves le_rfl

lemma valid_ofList (l : List (Nat × α)) : (ofList l).Valid := by
  rw [ofList]
  induction l.length generalizing l with
  | zero => trivial
  | succ fuel ih =>
    cases l with
    | nil => trivial
    | cons e l => exact (ih _).join (ih _) e.1 e.2

lemma mem_of_mem_meeting {found : List (Nat × α)} {e : Nat × α} (h : e ∈ index.meeting m found) :
    e ∈ index.entries ∨ e ∈ found := by
  induction index generalizing found with
  | nil => exact Or.inr h
  | node all key value left right ihl ihr =>
    have hbelow : e ∈ left.meeting m (right.meeting m found) → e ∈ left.entries ++ right.entries ∨ e ∈ found := by
      intro h
      rw [List.mem_append]
      rcases ihl h with h | h
      · exact Or.inl (Or.inl h)
      · exact (ihr h).imp_left Or.inr
    rw [meeting, Bool.cond_eq_ite, Bool.cond_eq_ite] at h
    rw [entries, List.mem_cons]
    split at h
    · exact Or.inr h
    · split at h
      · exact (hbelow h).imp_left Or.inr
      · rcases List.mem_cons.mp h with rfl | h
        · exact Or.inl (Or.inl rfl)
        · exact (hbelow h).imp_left Or.inr

lemma mem_meeting_of_found {found : List (Nat × α)} {e : Nat × α} (h : e ∈ found) : e ∈ index.meeting m found := by
  induction index generalizing found with
  | nil => exact h
  | node all key value left right ihl ihr =>
    rw [meeting, Bool.cond_eq_ite, Bool.cond_eq_ite]
    split
    · exact h
    · split
      · exact ihl (ihr h)
      · exact List.mem_cons_of_mem _ (ihl (ihr h))

lemma Valid.mem_meeting (hv : index.Valid) {found : List (Nat × α)} {e : Nat × α} (he : e ∈ index.entries)
    {i : Nat} (hm : m.testBit i = true) (hi : e.1.testBit i = true) : e ∈ index.meeting m found := by
  induction index generalizing found with
  | nil => cases he
  | node all key value left right ihl ihr =>
    obtain ⟨hall, hl, hr⟩ := hv
    have hkey : e.1 ∈ key :: (left.keys ++ right.keys) := by
      rw [← keys_node all key value left right]
      exact List.mem_map_of_mem he
    rw [meeting, not_disjoint hm (testBit_of_within (hall _ hkey) hi), cond_false]
    rw [entries, List.mem_cons, List.mem_append] at he
    rcases he with rfl | he | he
    · rw [not_disjoint hm hi]
      exact List.mem_cons_self
    · rw [Bool.cond_eq_ite]
      split
      · exact ihl hl he
      · exact List.mem_cons_of_mem _ (ihl hl he)
    · rw [Bool.cond_eq_ite]
      split
      · exact mem_meeting_of_found (ihr hr he)
      · exact List.mem_cons_of_mem _ (mem_meeting_of_found (ihr hr he))

lemma keys_update (f : Nat → α → α) : (index.update m f).keys = index.keys := by
  induction index with
  | nil => rfl
  | node all key value left right ihl ihr =>
    rw [update, Bool.cond_eq_ite]
    split
    · rfl
    · rw [keys_node, keys_node, ihl, ihr]

lemma Valid.update (h : index.Valid) (f : Nat → α → α) : (index.update m f).Valid := by
  induction index with
  | nil => trivial
  | node all key value left right ihl ihr =>
    rw [Index.update, Bool.cond_eq_ite]
    split
    · exact h
    · refine ⟨?_, ihl h.2.1, ihr h.2.2⟩
      rw [keys_update, keys_update]
      exact h.1

lemma Valid.testBit_unionMeeting {index : Index Nat} (hv : index.Valid) {e : Nat × Nat} (he : e ∈ index.entries)
    {i b : Nat} (hm : m.testBit i = true) (hi : e.1.testBit i = true) (hb : e.2.testBit b = true) :
    (index.unionMeeting m).testBit b = true :=
  testBit_union.mpr ⟨e, hv.mem_meeting he hm hi, hb⟩

end Index

end Ramify.Bits
