import Ramify.LR.First
import Ramify.Proofs.LR.Derivation
import Ramify.Proofs.LR.Saturation

namespace Ramify.LR

namespace FirstSets

variable (F : FirstSets)

lemma ofSeq_append (u v : List Nat) (la : Nat) : F.ofSeq (u ++ v) la = F.ofSeq u (F.ofSeq v la) := by
  induction u with
  | nil => rfl
  | cons s u ih => simp only [List.cons_append, ofSeq, ih]

lemma testBit_ofSeq (seq : List Nat) (la t : Nat) :
    (F.ofSeq seq la).testBit t = true ↔
      (F.ofSeq seq 0).testBit t = true ∨ (∀ s ∈ seq, F.isNullable s = true) ∧ la.testBit t = true := by
  induction seq with
  | nil => simp [ofSeq]
  | cons s seq ih =>
    cases hs : F.isNullable s with
    | true => simp [ofSeq, hs, ih, or_assoc]
    | false => simp [ofSeq, hs]

lemma ofSeq_lt {width : Nat} (h : ∀ s, F.ofSymbol s < 2 ^ width) (seq : List Nat) {la : Nat}
    (hla : la < 2 ^ width) : F.ofSeq seq la < 2 ^ width := by
  induction seq with
  | nil => exact hla
  | cons s seq ih =>
    rw [ofSeq]
    split
    · exact Nat.or_lt_two_pow (h s) ih
    · exact h s

section Exact

variable {F} {G : NumberedGrammar}

structure Sound (G : NumberedGrammar) (F : FirstSets) : Prop where
  nullable : ∀ s, F.isNullable s = true → G.Derives [s] []
  first : ∀ s t, (F.ofSymbol s).testBit t = true → G.Begins [s] t

structure Closed (G : NumberedGrammar) (F : FirstSets) : Prop where
  nullable : ∀ r ∈ G.rules, (∀ s ∈ r.right, F.isNullable s = true) → F.isNullable r.left = true
  first : ∀ r ∈ G.rules, ∀ t, (F.ofSeq r.right 0).testBit t = true → (F.ofSymbol r.left).testBit t = true
  terminal : ∀ t, G.nonterminals ≤ t → t < G.symbolCount → (F.ofSymbol t).testBit t = true

lemma testBit_ofSeq_singleton {s t : Nat} (h : (F.ofSymbol s).testBit t = true) :
    (F.ofSeq [s] 0).testBit t = true := by
  cases hs : F.isNullable s <;> simp [ofSeq, hs, h]

lemma Sound.begins (hF : F.Sound G) {seq : List Nat} {t : Nat} (h : (F.ofSeq seq 0).testBit t = true) :
    G.Begins seq t := by
  induction seq with
  | nil => simp [ofSeq] at h
  | cons s seq ih =>
    rw [ofSeq] at h
    split at h
    · rename_i hs
      rw [Nat.testBit_or, Bool.or_eq_true] at h
      rcases h with h | h
      · exact (hF.first s t h).append seq
      · exact NumberedGrammar.Begins.prepend (hF.nullable s hs) (ih h)
    · exact (hF.first s t h).append seq

lemma Closed.isNullable_of_derives (hF : F.Closed G) {u : List Nat} (h : G.Derives u []) :
    ∀ s ∈ u, F.isNullable s = true := by
  refine h.backward (P := fun u => ∀ s ∈ u, F.isNullable s = true) ?_ (by simp)
  rintro _ _ ⟨u, v, hr⟩ hall s hs
  rcases List.mem_append.mp hs with hu | hs
  · exact hall s (by simp [hu])
  · rcases List.mem_cons.mp hs with rfl | hv
    · exact hF.nullable _ hr fun s hs => hall s (by simp [hs])
    · exact hall s (by simp [hv])

lemma Closed.testBit_ofSeq_of_rewrites (hF : F.Closed G) {u v : List Nat} (h : G.Rewrites u v) {t : Nat}
    (ht : (F.ofSeq v 0).testBit t = true) : (F.ofSeq u 0).testBit t = true := by
  obtain ⟨u, v, hr⟩ := h
  rename_i r
  rw [ofSeq_append, testBit_ofSeq] at ht ⊢
  refine ht.imp_right (And.imp_right fun ht => ?_)
  rw [ofSeq_append, testBit_ofSeq] at ht
  rw [← List.singleton_append, ofSeq_append, testBit_ofSeq]
  rcases ht with ht | ⟨hnull, ht⟩
  · exact Or.inl (testBit_ofSeq_singleton (hF.first r hr t ht))
  · exact Or.inr ⟨List.forall_mem_singleton.mpr (hF.nullable r hr hnull), ht⟩

lemma Closed.testBit_of_begins (hF : F.Closed G) {seq : List Nat} {t : Nat} (ht : t < G.symbolCount)
    (h : G.Begins seq t) : (F.ofSeq seq 0).testBit t = true := by
  obtain ⟨hn, rest, hd⟩ := h
  refine hd.backward (P := fun u => (F.ofSeq u 0).testBit t = true)
    (fun u v hs hv => hF.testBit_ofSeq_of_rewrites hs hv) ?_
  rw [← List.singleton_append, ofSeq_append, testBit_ofSeq]
  exact Or.inl (testBit_ofSeq_singleton (hF.terminal t hn ht))

structure Exact (G : NumberedGrammar) (F : FirstSets) : Prop where
  sound : F.Sound G
  closed : F.Closed G

lemma Exact.forall_isNullable (hF : F.Exact G) (u : List Nat) :
    (∀ s ∈ u, F.isNullable s = true) ↔ G.Derives u [] :=
  ⟨fun h => NumberedGrammar.derives_nil_of_forall fun s hs => hF.sound.nullable s (h s hs),
    hF.closed.isNullable_of_derives⟩

lemma Exact.isNullable_iff (hF : F.Exact G) (s : Nat) : F.isNullable s = true ↔ G.Derives [s] [] := by
  simpa using hF.forall_isNullable [s]

lemma Exact.testBit_ofSeq_iff (hF : F.Exact G) (hin : G.InRange) {seq : List Nat}
    (hseq : ∀ s ∈ seq, s < G.symbolCount) (la t : Nat) : (F.ofSeq seq la).testBit t = true ↔
      G.Begins seq t ∨ G.Derives seq [] ∧ la.testBit t = true := by
  rw [testBit_ofSeq, hF.forall_isNullable]
  exact or_congr_left ⟨hF.sound.begins, fun h => hF.closed.testBit_of_begins (h.lt hin hseq) h⟩

lemma Exact.testBit_ofSymbol_iff (hF : F.Exact G) (hin : G.InRange) {s : Nat} (hs : s < G.symbolCount) (t : Nat) :
    (F.ofSymbol s).testBit t = true ↔ G.Begins [s] t := by
  refine ⟨hF.sound.first s t, fun h => ?_⟩
  have hbit := hF.closed.testBit_of_begins (h.lt hin (by simpa using hs)) h
  rw [ofSeq, ofSeq] at hbit
  split at hbit <;> simpa using hbit

end Exact

end FirstSets

namespace NumberedGrammar

variable (G : NumberedGrammar)

def nullableStep (acc : Array Bool) (r : NumberedRule) : Array Bool :=
  if r.right.all (acc.getD · false) then acc.setIfInBounds r.left true else acc

lemma nullableSweep_eq : G.nullableSweep = fun a => G.rules.toList.foldl nullableStep a := by
  funext a
  rw [nullableSweep, Array.foldl_toList]
  rfl

lemma nullableStep_grows (n : Nat) (r : NumberedRule) :
    Grows (fun a : Array Bool => a.size = n) (weight Bool.toNat) (nullableStep · r) := by
  unfold nullableStep
  refine ⟨fun a ha => by split <;> simpa using ha, fun a ha => ?_⟩
  split
  · by_cases hr : a.getD r.left true = true
    · exact Or.inl (setIfInBounds_true_eq hr)
    · have hlt := lt_size_of_getD hr
      exact Or.inr (weight_set_true hlt (by simpa [Array.getD, hlt] using hr))
  · exact Or.inl rfl

lemma nullableSweep_grows (n : Nat) :
    Grows (fun a : Array Bool => a.size = n) (weight Bool.toNat) G.nullableSweep := by
  rw [nullableSweep_eq]
  exact Grows.foldl fun r _ => nullableStep_grows n r

lemma nullable_size : G.nullable.size = G.symbolCount := by
  apply saturate_invariant (P := fun a : Array Bool => a.size = G.symbolCount)
  · exact (G.nullableSweep_grows G.symbolCount).keeps
  · simp

lemma nullable_fixed : G.nullableSweep G.nullable = G.nullable :=
  saturate_fixed (G.nullableSweep_grows G.symbolCount) (fun a ha => ha ▸ weight_toNat_le a)
    (by simp) (by omega)

variable {G}

lemma nullableStep_sound {acc : Array Bool} (hacc : ∀ s, acc.getD s false = true → G.Derives [s] [])
    {r : NumberedRule} (hr : r ∈ G.rules) {s : Nat} (hs : (nullableStep acc r).getD s false = true) :
    G.Derives [s] [] := by
  rw [nullableStep] at hs
  split at hs
  · rename_i hall
    rw [getD_setIfInBounds] at hs
    split at hs
    · rename_i hrs
      have hright : G.Derives r.right [] :=
        derives_nil_of_forall fun s hs => hacc s (List.all_eq_true.mp hall s hs)
      exact hrs.1 ▸ (Derives.of_rule hr).trans hright
    · exact hacc s hs
  · exact hacc s hs

lemma nullable_sound {s : Nat} (h : G.nullable.getD s false = true) : G.Derives [s] [] := by
  let P (a : Array Bool) : Prop := ∀ s, a.getD s false = true → G.Derives [s] []
  have hstep : ∀ acc, P acc → ∀ r ∈ G.rules.toList, P (nullableStep acc r) :=
    fun acc hacc r hr s hs => nullableStep_sound hacc (by simpa using hr) hs
  have hall : P G.nullable := by
    refine saturate_invariant (fun a ha => ?_) _ fun s hs => by simp [Array.getD] at hs
    rw [nullableSweep_eq]
    exact foldl_invariant hstep ha
  exact hall s h

def firstStep (nullable : Array Bool) (acc : Array Nat) (r : NumberedRule) : Array Nat :=
  if acc.getD r.left 0 ||| FirstSets.ofSeq ⟨nullable, acc⟩ r.right 0 = acc.getD r.left 0 then acc
  else acc.setIfInBounds r.left (acc.getD r.left 0 ||| FirstSets.ofSeq ⟨nullable, acc⟩ r.right 0)

variable (G) in
lemma firstSweep_eq (nullable : Array Bool) :
    G.firstSweep nullable = fun a => G.rules.toList.foldl (firstStep nullable) a := by
  funext a
  rw [firstSweep, Array.foldl_toList]
  rfl

def Bounded (n : Nat) (a : Array Nat) : Prop := a.size = n ∧ ∀ s, a.getD s 0 < 2 ^ n

lemma firstStep_getD (nullable : Array Bool) (acc : Array Nat) (r : NumberedRule) (s : Nat) :
    (firstStep nullable acc r).getD s 0 =
      if r.left = s ∧ s < acc.size then acc.getD s 0 ||| FirstSets.ofSeq ⟨nullable, acc⟩ r.right 0
      else acc.getD s 0 := by
  unfold firstStep
  split
  · rename_i he
    split
    · rename_i hs
      rw [← hs.1, he]
    · rfl
  · rw [getD_setIfInBounds]
    split <;> grind

lemma firstStep_grows (nullable : Array Bool) (n : Nat) (r : NumberedRule) :
    Grows (Bounded n) (weight (bitCount n)) (firstStep nullable · r) := by
  refine ⟨fun a ha => ⟨?_, fun s => ?_⟩, fun a ha => ?_⟩
  · have hsize := ha.1
    unfold firstStep
    split
    · exact hsize
    · simpa using hsize
  · rw [firstStep_getD]
    split
    · exact Nat.or_lt_two_pow (ha.2 s) (FirstSets.ofSeq_lt _ ha.2 _ (Nat.two_pow_pos _))
    · exact ha.2 s
  · have hfound := FirstSets.ofSeq_lt ⟨nullable, a⟩ ha.2 r.right (Nat.two_pow_pos n)
    unfold firstStep
    split
    · exact Or.inl rfl
    · rename_i hne
      by_cases hl : r.left < a.size
      · refine Or.inr (weight_lt_of_set hl ?_)
        rw [getElem_eq_getD hl 0]
        exact bitCount_lt_or (ha.2 _) hfound hne
      · exact Or.inl (Array.setIfInBounds_eq_of_size_le (by omega))

lemma firstSweep_grows (nullable : Array Bool) (n : Nat) :
    Grows (Bounded n) (weight (bitCount n)) (G.firstSweep nullable) := by
  rw [firstSweep_eq]
  exact Grows.foldl fun r _ => firstStep_grows nullable n r

variable (G) in
def firstStart : Array Nat :=
  (Array.range G.symbolCount).map fun s => if s < G.nonterminals then 0 else 1 <<< s

lemma firstStart_getD (s : Nat) :
    G.firstStart.getD s 0 = if s < G.symbolCount ∧ G.nonterminals ≤ s then 1 <<< s else 0 := by
  by_cases hs : s < G.symbolCount
  · by_cases hn : s < G.nonterminals <;> simp [firstStart, hs, hn, Nat.not_le.mpr, Nat.le_of_not_lt]
  · simp [firstStart, hs]

lemma firstStart_bounded : Bounded G.symbolCount G.firstStart := by
  refine ⟨by simp [firstStart], fun s => ?_⟩
  rw [firstStart_getD]
  split
  · rename_i hs
    rw [Nat.one_shiftLeft]
    exact Nat.pow_lt_pow_right (by omega) hs.1
  · exact Nat.two_pow_pos _

lemma firstSets_first : G.firstSets.first =
    saturate (G.firstSweep G.nullable) (G.symbolCount * G.symbolCount + 1) G.firstStart := rfl

lemma first_bounded : Bounded G.symbolCount G.firstSets.first := by
  rw [firstSets_first]
  exact saturate_invariant (firstSweep_grows _ _).keeps _ firstStart_bounded

lemma ofSymbol_lt (s : Nat) : G.firstSets.ofSymbol s < 2 ^ G.symbolCount := first_bounded.2 s

lemma first_fixed : G.firstSweep G.nullable G.firstSets.first = G.firstSets.first := by
  rw [firstSets_first]
  refine saturate_fixed (firstSweep_grows _ G.symbolCount) (fun a ha => ?_) firstStart_bounded
    (by omega : G.symbolCount * G.symbolCount < _)
  have hh := weight_le (w := bitCount G.symbolCount) (a := a) fun x _ => bitCount_le G.symbolCount x
  rwa [ha.1] at hh

lemma firstStep_increasing (nullable : Array Bool) (acc : Array Nat) (r : NumberedRule) {s t : Nat}
    (h : (acc.getD s 0).testBit t = true) : ((firstStep nullable acc r).getD s 0).testBit t = true := by
  rw [firstStep_getD]
  split
  · rw [Nat.testBit_or, h, Bool.true_or]
  · exact h

lemma firstStart_terminal {t : Nat} (hn : G.nonterminals ≤ t) (ht : t < G.symbolCount) :
    (G.firstStart.getD t 0).testBit t = true := by
  rw [firstStart_getD, if_pos ⟨ht, hn⟩, Nat.one_shiftLeft, Nat.testBit_two_pow_self]

lemma firstStart_sound {s t : Nat} (h : (G.firstStart.getD s 0).testBit t = true) : G.Begins [s] t := by
  rw [firstStart_getD] at h
  split at h
  · rename_i hs
    rw [Nat.one_shiftLeft, Nat.testBit_two_pow, decide_eq_true_eq] at h
    subst h
    exact ⟨hs.2, [], Derives.refl _⟩
  · simp at h

lemma firstStep_sound {F : FirstSets} (hF : F.Sound G) {r : NumberedRule} (hr : r ∈ G.rules) :
    FirstSets.Sound G ⟨F.nullable, firstStep F.nullable F.first r⟩ := by
  refine ⟨hF.nullable, fun s t ht => ?_⟩
  rw [FirstSets.ofSymbol, firstStep_getD] at ht
  split at ht
  · rename_i hs
    rw [Nat.testBit_or, Bool.or_eq_true] at ht
    rcases ht with ht | ht
    · exact hF.first s t ht
    · exact hs.1 ▸ (hF.begins ht).of_derives (Derives.of_rule hr)
  · exact hF.first s t ht

lemma closed_of_fixed (hin : G.InRange) {F : FirstSets} (hsize : F.nullable.size = G.symbolCount)
    (hsize' : F.first.size = G.symbolCount) (hn : ∀ r ∈ G.rules, nullableStep F.nullable r = F.nullable)
    (hf : ∀ r ∈ G.rules, firstStep F.nullable F.first r = F.first)
    (ht : ∀ t, G.nonterminals ≤ t → t < G.symbolCount → (F.ofSymbol t).testBit t = true) : F.Closed G := by
  have hleft (r) (hr : r ∈ G.rules) : r.left < G.symbolCount :=
    (hin.left_lt r hr).trans_le hin.nonterminals_le
  refine ⟨fun r hr hall => ?_, fun r hr t hbit => ?_, ht⟩
  · have hstep := hn r hr
    have hright : r.right.all (F.nullable.getD · false) = true := List.all_eq_true.mpr hall
    rw [nullableStep, if_pos hright] at hstep
    rw [FirstSets.isNullable, ← hstep, getD_setIfInBounds, if_pos ⟨rfl, hsize ▸ hleft r hr⟩]
  · have hstep := firstStep_getD F.nullable F.first r r.left
    rw [hf r hr, if_pos ⟨rfl, hsize' ▸ hleft r hr⟩] at hstep
    rw [FirstSets.ofSymbol, hstep, Nat.testBit_or, Bool.or_eq_true]
    exact Or.inr hbit

lemma firstSets_sound : G.firstSets.Sound G := by
  let P (a : Array Nat) : Prop := FirstSets.Sound G ⟨G.nullable, a⟩
  change P G.firstSets.first
  rw [firstSets_first]
  refine saturate_invariant (fun a ha => ?_) _ ⟨fun s => nullable_sound, fun s t => firstStart_sound⟩
  rw [firstSweep_eq]
  exact foldl_invariant (fun acc hacc r hr => firstStep_sound hacc (by simpa using hr)) ha

lemma firstSets_closed (hin : G.InRange) : G.firstSets.Closed G := by
  refine closed_of_fixed hin G.nullable_size first_bounded.1 (fun r hr => ?_) (fun r hr => ?_) fun t hn ht => ?_
  · have hf := G.nullable_fixed
    rw [nullableSweep_eq] at hf
    exact Grows.of_foldl_eq (fun r _ => nullableStep_grows _ r) G.nullable_size hf r (by simpa using hr)
  · have hf := G.first_fixed
    rw [firstSweep_eq] at hf
    exact Grows.of_foldl_eq (fun r _ => firstStep_grows G.nullable _ r) first_bounded hf r (by simpa using hr)
  · let P (a : Array Nat) : Prop := (a.getD t 0).testBit t = true
    change P G.firstSets.first
    rw [firstSets_first]
    refine saturate_invariant (fun a ha => ?_) _ (firstStart_terminal hn ht)
    rw [firstSweep_eq]
    exact foldl_invariant (fun acc hacc r _ => firstStep_increasing G.nullable acc r hacc) ha

lemma firstSets_isExact (hin : G.InRange) : G.firstSets.Exact G := ⟨firstSets_sound, firstSets_closed hin⟩

end NumberedGrammar

end Ramify.LR
