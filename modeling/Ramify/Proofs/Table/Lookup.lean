import Ramify.Table
import Mathlib

namespace Ramify.Table

variable {α : Type} {row : Array (Nat × α)}

def Sorted (row : Array (Nat × α)) : Prop := row.toList.Pairwise fun p q => p.1 < q.1

lemma Sorted.lt (h : Sorted row) {i j : Nat} {p q : Nat × α} (hi : row[i]? = some p) (hj : row[j]? = some q)
    (hij : i < j) : p.1 < q.1 := by
  obtain ⟨hi', rfl⟩ := Array.getElem?_eq_some_iff.mp hi
  obtain ⟨hj', rfl⟩ := Array.getElem?_eq_some_iff.mp hj
  exact List.pairwise_iff_getElem.mp h i j hi' hj' hij

lemma bisect_eq (h : Sorted row) {i key : Nat} {a : α} (hi : row[i]? = some (key, a)) {base size : Nat}
    (hb : base ≤ i) (hs : i < base + size) (hr : base + size ≤ row.size) : bisect row key base size = i := by
  fun_induction bisect row key base size with
  | case1 base size hsize => omega
  | case2 base size hsize half middle above ih =>
    have hmid : middle < row.size := by omega
    obtain ⟨p, hp⟩ : ∃ p, row[middle]? = some p := ⟨row[middle], Array.getElem?_eq_getElem hmid⟩
    have habove : above = decide (key < p.1) := by simp only [above, hp, Option.any_some]
    rcases Nat.lt_or_ge i middle with hlt | hge
    · have hk : above = true := by
        rw [habove, decide_eq_true_eq]
        exact h.lt hi hp hlt
      rw [dif_pos hk] at ih
      rw [if_pos hk]
      exact ih hb (by omega) (by omega)
    · have hk : ¬ above = true := by
        rw [habove, decide_eq_true_eq, Nat.not_lt]
        rcases Nat.eq_or_lt_of_le hge with he | hlt
        · rw [he, hi] at hp
          exact Nat.le_of_eq (congrArg Prod.fst (Option.some.inj hp)).symm
        · exact Nat.le_of_lt (h.lt hp hi hlt)
      rw [dif_neg hk] at ih
      rw [if_neg hk]
      exact ih hge (by omega) (by omega)

lemma mem_of_find? {key : Nat} {a : α} (h : find? row key = some a) : (key, a) ∈ row := by
  rw [find?] at h
  split at h
  · rename_i k b hk
    obtain ⟨rfl, he⟩ := Option.ite_none_right_eq_some.mp h
    exact Option.some.inj he ▸ Array.mem_of_getElem? hk
  · cases h

lemma find?_eq_some (h : Sorted row) {key : Nat} {a : α} : find? row key = some a ↔ (key, a) ∈ row := by
  refine ⟨mem_of_find?, fun hmem => ?_⟩
  obtain ⟨i, hi, hget⟩ := Array.getElem_of_mem hmem
  have hsome : row[i]? = some (key, a) := Array.getElem?_eq_some_iff.mpr ⟨hi, hget⟩
  rw [find?, bisect_eq h hsome (Nat.zero_le i) (by omega) (by omega), hsome]
  simp

end Ramify.Table
