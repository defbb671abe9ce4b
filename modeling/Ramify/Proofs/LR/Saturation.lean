import Ramify.LR.Item
import Mathlib

namespace Ramify.LR

variable {α β : Type}

structure Grows (Inv : α → Prop) (measure : α → Nat) (f : α → α) : Prop where
  keeps : ∀ a, Inv a → Inv (f a)
  grows : ∀ a, Inv a → f a = a ∨ measure a < measure (f a)

variable {Inv : α → Prop} {measure : α → Nat} {f : α → α}

lemma Grows.id : Grows Inv measure fun a => a :=
  ⟨fun _ ha => ha, fun _ _ => Or.inl rfl⟩

lemma Grows.comp {g : α → α} (hf : Grows Inv measure f) (hg : Grows Inv measure g) :
    Grows Inv measure fun a => g (f a) := by
  refine ⟨fun a ha => hg.keeps _ (hf.keeps a ha), fun a ha => ?_⟩
  have hh := hg.grows _ (hf.keeps a ha)
  rcases hf.grows a ha with he | hlt
  · rwa [he] at hh ⊢
  · rcases hh with he | hlt'
    · exact Or.inr (by rwa [he])
    · exact Or.inr (hlt.trans hlt')

lemma Grows.foldl {g : α → β → α} {bs : List β} (h : ∀ b ∈ bs, Grows Inv measure (g · b)) :
    Grows Inv measure fun a => bs.foldl g a := by
  induction bs with
  | nil => exact Grows.id
  | cons b bs ih =>
    exact (h b (by simp)).comp (ih fun c hc => h c (by simp [hc]))

lemma Grows.measure_le (h : Grows Inv measure f) {a : α} (ha : Inv a) : measure a ≤ measure (f a) := by
  rcases h.grows a ha with he | hlt
  · rw [he]
  · exact hlt.le

lemma Grows.of_foldl_eq {g : α → β → α} {bs : List β} (h : ∀ b ∈ bs, Grows Inv measure (g · b))
    {a : α} (ha : Inv a) (he : bs.foldl g a = a) : ∀ b ∈ bs, g a b = a := by
  induction bs with
  | nil => simp
  | cons b bs ih =>
    have hrest := fun c hc => h c (List.mem_cons_of_mem b hc)
    have hb := h b (by simp)
    have hfirst : g a b = a := by
      rcases hb.grows a ha with hb' | hlt
      · exact hb'
      · have hle := (Grows.foldl hrest).measure_le (hb.keeps a ha)
        rw [List.foldl_cons] at he
        rw [he] at hle
        omega
    intro c hc
    rcases List.mem_cons.mp hc with rfl | hc
    · exact hfirst
    · rw [List.foldl_cons, hfirst] at he
      exact ih hrest he c hc

lemma foldl_invariant {P : α → Prop} {g : α → β → α} {bs : List β}
    (h : ∀ a, P a → ∀ b ∈ bs, P (g a b)) {a : α} (ha : P a) : P (bs.foldl g a) :=
  List.foldlRecOn (motive := P) bs g ha h

lemma foldl_reaches {P Q : α → Prop} {g : α → β → α} {bs : List β}
    (hP : ∀ a, P a → ∀ b ∈ bs, P (g a b)) (hQ : ∀ a, Q a → ∀ b ∈ bs, Q (g a b)) {b : β} (hb : b ∈ bs)
    (h : ∀ a, P a → Q (g a b)) {a : α} (ha : P a) : Q (bs.foldl g a) := by
  obtain ⟨pre, post, rfl⟩ := List.append_of_mem hb
  rw [List.foldl_append, List.foldl_cons]
  have hpre : P (pre.foldl g a) := foldl_invariant (fun a ha c hc => hP a ha c (by simp [hc])) ha
  exact foldl_invariant (fun a ha c hc => hQ a ha c (by simp [hc])) (h _ hpre)

section Saturate

variable [DecidableEq α]

lemma saturate_invariant {P : α → Prop} (h : ∀ a, P a → P (f a)) (fuel : Nat) {a : α} (ha : P a) :
    P (saturate f fuel a) := by
  induction fuel generalizing a with
  | zero => exact ha
  | succ fuel ih =>
    rw [saturate]
    split
    · exact ha
    · exact ih (h a ha)

lemma saturate_fixed (h : Grows Inv measure f) {bound : Nat} (hb : ∀ a, Inv a → measure a ≤ bound)
    {fuel : Nat} {a : α} (ha : Inv a) (hf : bound < fuel + measure a) :
    f (saturate f fuel a) = saturate f fuel a := by
  induction fuel generalizing a with
  | zero => exact absurd (hb a ha) (by omega)
  | succ fuel ih =>
    rw [saturate]
    by_cases he : f a = a
    · simp [he]
    · rw [if_neg he]
      have hlt := (h.grows a ha).resolve_left he
      exact ih (h.keeps a ha) (by omega)

lemma iterate_eq_saturate {fuel n : Nat} {a : α} (h : f (saturate f fuel a) = saturate f fuel a)
    (hn : fuel ≤ n) : f^[n] a = saturate f fuel a := by
  induction fuel generalizing a n with
  | zero => exact Function.iterate_fixed h n
  | succ fuel ih =>
    rw [saturate] at h ⊢
    by_cases he : f a = a
    · rw [if_pos he]
      exact Function.iterate_fixed he n
    · obtain ⟨n, rfl⟩ := Nat.exists_eq_add_of_le' (Nat.one_le_of_lt hn)
      rw [if_neg he] at h ⊢
      rw [Function.iterate_succ_apply]
      exact ih h (Nat.le_of_succ_le_succ hn)

end Saturate

lemma Grows.iterate_fixed (h : Grows Inv measure f) {bound n : Nat} (hb : ∀ a, Inv a → measure a ≤ bound)
    (hn : bound < n) {a : α} (ha : Inv a) : f (f^[n] a) = f^[n] a := by
  classical
  have hf : f (saturate f n a) = saturate f n a := saturate_fixed h hb ha (by omega)
  rwa [iterate_eq_saturate hf le_rfl]

lemma getD_setIfInBounds {α : Type} (a : Array α) (i j : Nat) (x d : α) :
    (a.setIfInBounds i x).getD j d = if i = j ∧ i < a.size then x else a.getD j d := by
  simp only [Array.getD_eq_getD_getElem?]
  grind

lemma lt_size_of_getD {α : Type} {a : Array α} {i : Nat} {d : α} (h : a.getD i d ≠ d) :
    i < a.size := by
  by_contra hi
  exact h (by simp [Array.getD, hi])

lemma getElem_eq_getD {α : Type} {a : Array α} {i : Nat} (hi : i < a.size) (d : α) :
    a[i] = a.getD i d := by
  simp [Array.getD, hi]

def weight (w : β → Nat) (a : Array β) : Nat := (a.toList.map w).sum

lemma weight_le {w : β → Nat} {a : Array β} {c : Nat} (h : ∀ x ∈ a, w x ≤ c) :
    weight w a ≤ a.size * c := by
  have hh := List.sum_le_card_nsmul (a.toList.map w) c (by simpa using h)
  simpa [weight] using hh

lemma weight_set {w : β → Nat} {a : Array β} {i : Nat} (hi : i < a.size) (x : β) :
    weight w (a.setIfInBounds i x) + w a[i] = weight w a + w x := by
  have hsplit : a.toList = a.toList.take i ++ a[i] :: a.toList.drop (i + 1) := by
    rw [← Array.getElem_toList hi, ← List.drop_eq_getElem_cons, List.take_append_drop]
  have hset : (a.setIfInBounds i x).toList = a.toList.take i ++ x :: a.toList.drop (i + 1) := by
    rw [Array.toList_setIfInBounds, List.set_eq_take_append_cons_drop, if_pos (by simpa using hi)]
  rw [weight, weight, hset]
  conv_rhs => rw [hsplit]
  simp only [List.map_append, List.map_cons, List.sum_append, List.sum_cons]
  omega

lemma weight_lt_of_set {w : β → Nat} {a : Array β} {i : Nat} (hi : i < a.size) {x : β}
    (h : w a[i] < w x) : weight w a < weight w (a.setIfInBounds i x) := by
  have hh := weight_set (w := w) hi x
  omega

lemma weight_lt_of_modify {w : β → Nat} {a : Array β} {i : Nat} (hi : i < a.size) {f : β → β}
    (h : w a[i] < w (f a[i])) : weight w a < weight w (a.modify i f) := by
  have he : a.modify i f = a.setIfInBounds i (f a[i]) := by
    apply Array.ext_getElem?
    intro j
    rw [Array.getElem?_modify, Array.getElem?_setIfInBounds]
    split
    · rename_i hij
      subst hij
      simp [hi]
    · rfl
  exact he ▸ weight_lt_of_set hi h

lemma weight_set_true {a : Array Bool} {i : Nat} (hi : i < a.size) (h : a.getD i false = false) :
    weight Bool.toNat a < weight Bool.toNat (a.setIfInBounds i true) := by
  apply weight_lt_of_set hi
  rw [getElem_eq_getD hi false, h]
  decide

lemma setIfInBounds_true_eq {a : Array Bool} {i : Nat} (h : a.getD i true = true) :
    a.setIfInBounds i true = a := by
  apply Array.ext_getElem?
  intro j
  rw [Array.getElem?_setIfInBounds]
  split
  · rename_i hij
    subst hij
    split
    · rename_i hi
      simpa [Array.getD, hi] using h.symm
    · rename_i hi
      simp [hi]
  · rfl

lemma weight_toNat_le (a : Array Bool) : weight Bool.toNat a ≤ a.size := by
  have hh := weight_le (w := Bool.toNat) (a := a) (c := 1) fun x _ => Bool.toNat_le x
  simpa using hh

def bitCount (width set : Nat) : Nat := ((Finset.range width).filter fun k => set.testBit k).card

lemma bitCount_le (width set : Nat) : bitCount width set ≤ width := by
  have hh := Finset.card_filter_le (Finset.range width) fun k => set.testBit k
  simpa [bitCount] using hh

lemma bitCount_le_or (width old new : Nat) : bitCount width old ≤ bitCount width (old ||| new) := by
  apply Finset.card_le_card
  intro k hk
  simp only [Finset.mem_filter, Nat.testBit_or, Bool.or_eq_true] at hk ⊢
  exact ⟨hk.1, Or.inl hk.2⟩

lemma bitCount_lt_or {width old new : Nat} (hold : old < 2 ^ width) (hnew : new < 2 ^ width)
    (hne : old ||| new ≠ old) : bitCount width old < bitCount width (old ||| new) := by
  have hlt : old ||| new < 2 ^ width := Nat.or_lt_two_pow hold hnew
  obtain ⟨k, hk⟩ := Nat.exists_testBit_ne_of_ne hne
  have hbit : new.testBit k = true ∧ old.testBit k = false := by
    simpa [Nat.testBit_or] using hk
  apply Finset.card_lt_card
  rw [Finset.ssubset_iff_of_subset]
  · refine ⟨k, ?_, by simp [hbit.2]⟩
    have hkw : k < width := by
      by_contra hge
      have := Nat.testBit_lt_two_pow (hnew.trans_le (Nat.pow_le_pow_right (by omega) (not_lt.mp hge)))
      simp [hbit.1] at this
    simp [hkw, hbit.1]
  · intro j hj
    simp only [Finset.mem_filter, Nat.testBit_or, Bool.or_eq_true] at hj ⊢
    exact ⟨hj.1, Or.inl hj.2⟩

end Ramify.LR
