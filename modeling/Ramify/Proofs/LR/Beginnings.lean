import Ramify.LR.Range
import Ramify.Proofs.LR.FirstSets

namespace Ramify.LR

namespace FirstSets

variable {G : NumberedGrammar} {F F' : FirstSets}

lemma Exact.nullable_eq (hF : F.Exact G) (hF' : F'.Exact G) (hs : F.nullable.size = F'.nullable.size) :
    F.nullable = F'.nullable := by
  apply Array.ext hs
  intro s hs hs'
  rw [getElem_eq_getD hs false, getElem_eq_getD hs' false, Bool.eq_iff_iff]
  exact (hF.isNullable_iff s).trans (hF'.isNullable_iff s).symm

lemma Exact.first_eq (hin : G.InRange) (hF : F.Exact G) (hF' : F'.Exact G) (hs : F.first.size = G.symbolCount)
    (hs' : F'.first.size = G.symbolCount) : F.first = F'.first := by
  apply Array.ext (hs.trans hs'.symm)
  intro s hlt hlt'
  rw [getElem_eq_getD hlt 0, getElem_eq_getD hlt' 0]
  apply Nat.eq_of_testBit_eq
  intro t
  rw [Bool.eq_iff_iff]
  have hlt : s < G.symbolCount := hs ▸ hlt
  exact (hF.testBit_ofSymbol_iff hin hlt t).trans (hF'.testBit_ofSymbol_iff hin hlt t).symm

end FirstSets

namespace NumberedGrammar

variable (G : NumberedGrammar)

def jointStep (F : FirstSets) (r : NumberedRule) : FirstSets :=
  ⟨nullableStep F.nullable r, firstStep F.nullable F.first r⟩

def jointSweep (F : FirstSets) : FirstSets := G.rules.toList.foldl jointStep F

def jointStart : FirstSets := ⟨Array.replicate G.symbolCount false, G.firstStart⟩

def JointlyBounded (n : Nat) (F : FirstSets) : Prop := F.nullable.size = n ∧ Bounded n F.first

def jointWeight (n : Nat) (F : FirstSets) : Nat := weight Bool.toNat F.nullable + weight (bitCount n) F.first

variable {G}

lemma jointWeight_le {n : Nat} {F : FirstSets} (h : JointlyBounded n F) : jointWeight n F ≤ n + n * n := by
  obtain ⟨hnullable, hfirst, _⟩ := h
  apply Nat.add_le_add
  · exact hnullable ▸ weight_toNat_le F.nullable
  · have hh := weight_le (w := bitCount n) (a := F.first) fun x _ => bitCount_le n x
    rwa [hfirst] at hh

lemma jointStep_grows (n : Nat) (r : NumberedRule) :
    Grows (JointlyBounded n) (jointWeight n) (jointStep · r) := by
  refine ⟨fun F hF => ⟨(nullableStep_grows n r).keeps _ hF.1, (firstStep_grows _ n r).keeps _ hF.2⟩,
    fun F hF => ?_⟩
  have hnullable := (nullableStep_grows n r).grows _ hF.1
  have hfirst := (firstStep_grows F.nullable n r).grows _ hF.2
  have hle := (nullableStep_grows n r).measure_le hF.1
  have hle' := (firstStep_grows F.nullable n r).measure_le hF.2
  simp only [jointStep, jointWeight]
  rcases hnullable with hn | hn
  · rcases hfirst with hf | hf
    · exact Or.inl (by rw [hn, hf])
    · exact Or.inr (by omega)
  · exact Or.inr (by omega)

lemma jointSweep_grows (n : Nat) : Grows (JointlyBounded n) (jointWeight n) G.jointSweep :=
  Grows.foldl fun r _ => jointStep_grows n r

lemma jointStart_bounded : JointlyBounded G.symbolCount G.jointStart := ⟨by simp [jointStart], firstStart_bounded⟩

lemma jointStart_sound : G.jointStart.Sound G := by
  refine ⟨fun s hs => ?_, fun s t => firstStart_sound⟩
  simp [jointStart, FirstSets.isNullable, Array.getD] at hs

lemma jointStep_sound {F : FirstSets} (hF : F.Sound G) {r : NumberedRule} (hr : r ∈ G.rules) :
    (jointStep F r).Sound G :=
  ⟨fun _ hs => nullableStep_sound hF.nullable hr hs, (firstStep_sound hF hr).first⟩

lemma jointSweep_sound {F : FirstSets} (hF : F.Sound G) : (G.jointSweep F).Sound G :=
  foldl_invariant (P := FirstSets.Sound G) (fun _ hF r hr => jointStep_sound hF (by simpa using hr)) hF

lemma jointSweep_increasing {F : FirstSets} {s t : Nat} (h : (F.ofSymbol s).testBit t = true) :
    ((G.jointSweep F).ofSymbol s).testBit t = true := by
  have hstep (F : FirstSets) (hF : (F.ofSymbol s).testBit t = true) (r : NumberedRule) :
      ((jointStep F r).ofSymbol s).testBit t = true := firstStep_increasing F.nullable F.first r hF
  exact foldl_invariant (P := fun F : FirstSets => (F.ofSymbol s).testBit t = true) (fun F hF r _ => hstep F hF r) h

lemma jointSweep_closed (hin : G.InRange) {F : FirstSets} (hb : JointlyBounded G.symbolCount F)
    (hf : G.jointSweep F = F)
    (ht : ∀ t, G.nonterminals ≤ t → t < G.symbolCount → (F.ofSymbol t).testBit t = true) : F.Closed G := by
  have hstep (r) (hr : r ∈ G.rules) : jointStep F r = F :=
    Grows.of_foldl_eq (fun r _ => jointStep_grows _ r) hb hf r (by simpa using hr)
  exact closed_of_fixed hin hb.1 hb.2.1 (fun r hr => congrArg FirstSets.nullable (hstep r hr))
    (fun r hr => congrArg FirstSets.first (hstep r hr)) ht

lemma jointSweep_iterate (hin : G.InRange) {n : Nat} (hn : G.symbolCount + G.symbolCount * G.symbolCount < n) :
    G.jointSweep^[n] G.jointStart = G.firstSets := by
  have hgrows := jointSweep_grows (G := G) G.symbolCount
  have hfixed := hgrows.iterate_fixed (fun F => jointWeight_le) hn jointStart_bounded
  have hbounded : JointlyBounded G.symbolCount (G.jointSweep^[n] G.jointStart) :=
    Function.Iterate.rec _ jointStart_bounded hgrows.keeps n
  have hsound : (G.jointSweep^[n] G.jointStart).Sound G :=
    Function.Iterate.rec _ jointStart_sound (fun _ => jointSweep_sound) n
  have hclosed : (G.jointSweep^[n] G.jointStart).Closed G := by
    refine jointSweep_closed hin hbounded hfixed fun t ht hlt => ?_
    have hstart : (G.jointStart.ofSymbol t).testBit t = true := firstStart_terminal ht hlt
    exact Function.Iterate.rec (fun F : FirstSets => (F.ofSymbol t).testBit t = true) hstart
      (fun _ => jointSweep_increasing) n
  have hexact : (G.jointSweep^[n] G.jointStart).Exact G := ⟨hsound, hclosed⟩
  have hnullable := hexact.nullable_eq (firstSets_isExact hin) (hbounded.1.trans G.nullable_size.symm)
  have hfirst := hexact.first_eq hin (firstSets_isExact hin) hbounded.2.1 first_bounded.1
  calc G.jointSweep^[n] G.jointStart
      = ⟨(G.jointSweep^[n] G.jointStart).nullable, (G.jointSweep^[n] G.jointStart).first⟩ := rfl
    _ = G.firstSets := by rw [hnullable, hfirst]

end NumberedGrammar

section Elements

lemma mem_elements {bound set t : Nat} : t ∈ elements bound set ↔ t < bound ∧ set.testBit t = true := by
  simp [elements]

lemma elements_pairwise (bound set : Nat) : (elements bound set).Pairwise (· < ·) :=
  List.pairwise_lt_range.filter _

lemma eraseDups_pairwise (l : List Nat) (h : l.Pairwise (· ≤ ·)) : l.eraseDups.Pairwise (· < ·) := by
  induction hn : l.length using Nat.strong_induction_on generalizing l with
  | _ n ih =>
    cases l with
    | nil => simp
    | cons s l =>
      obtain ⟨hs, hl⟩ := List.pairwise_cons.mp h
      have hlen : (l.filter fun t => !t == s).length < n := by
        have hle := List.length_filter_le (fun t => !t == s) l
        simp only [List.length_cons] at hn
        omega
      rw [List.eraseDups_cons]
      refine List.pairwise_cons.mpr ⟨fun t ht => ?_, ih _ hlen _ (hl.filter _) rfl⟩
      obtain ⟨ht, hne⟩ := List.mem_filter.mp (List.mem_eraseDups.mp ht)
      have hle := hs t ht
      simp only [Bool.not_eq_true', beq_eq_false_iff_ne] at hne
      omega

end Elements

namespace Analysis

variable {G : NumberedGrammar} {seq : List Nat}

lemma beginnings_pairwise (la : List Nat) : ((ofGrammar G).beginnings seq la).Pairwise (· < ·) := by
  rw [beginnings]
  split
  · apply eraseDups_pairwise
    have hsorted (l : List Nat) : l.mergeSort.Pairwise fun a b => decide (a ≤ b) = true :=
      List.pairwise_mergeSort (by simp; omega) (by simp; omega) l
    simpa using hsorted _
  · exact elements_pairwise _ _

lemma mem_beginnings (hin : G.InRange) (hseq : ∀ s ∈ seq, s < G.symbolCount) {la : List Nat} {t : Nat} :
    t ∈ (ofGrammar G).beginnings seq la ↔ G.Begins seq t ∨ G.Derives seq [] ∧ t ∈ la := by
  have hF := NumberedGrammar.firstSets_isExact hin
  have hown : t ∈ elements G.symbolCount (G.firstSets.ofSeq seq 0) ↔ G.Begins seq t := by
    rw [mem_elements, hF.testBit_ofSeq_iff hin hseq]
    simp only [Nat.zero_testBit, Bool.false_eq_true, and_false, or_false]
    exact and_iff_right_of_imp fun h => h.lt hin hseq
  have hall : seq.all G.firstSets.isNullable = true ↔ G.Derives seq [] := by
    rw [List.all_eq_true, hF.forall_isNullable]
  rw [← hown, ← hall, beginnings]
  split
  · rename_i h
    have h' : seq.all G.firstSets.isNullable = true := h
    simp only [List.mem_eraseDups, List.mem_mergeSort, List.mem_append, h', true_and]
    rfl
  · rename_i h
    have h' : ¬ seq.all G.firstSets.isNullable = true := h
    rw [or_iff_left fun hl => h' hl.1]
    rfl

/-- The loops end, and what they find is exact: a symbol is nullable if it derives the empty
word, and begins with the terminals of the sentential forms that it derives. -/
theorem firstSets_exact (hin : G.InRange) :
    (∀ n > G.symbolCount, G.nullableSweep^[n] (Array.replicate G.symbolCount false) = G.firstSets.nullable) ∧
    (∀ n > G.symbolCount * G.symbolCount,
      (G.firstSweep G.firstSets.nullable)^[n] G.firstStart = G.firstSets.first) ∧
    (∀ n > G.symbolCount + G.symbolCount * G.symbolCount, G.jointSweep^[n] G.jointStart = G.firstSets) ∧
    (∀ x < G.symbolCount, (G.firstSets.isNullable x = true ↔ G.Derives [x] []) ∧
      ∀ t, (G.firstSets.ofSymbol x).testBit t = true ↔ G.Begins [x] t) ∧
    ∀ seq : List Nat, (∀ s ∈ seq, s < G.symbolCount) →
      (∀ la t, (G.firstSets.ofSeq seq la).testBit t = true ↔
        G.Begins seq t ∨ G.Derives seq [] ∧ la.testBit t = true) ∧
      ∀ la, ((ofGrammar G).beginnings seq la).Pairwise (· < ·) ∧
        ∀ t, t ∈ (ofGrammar G).beginnings seq la ↔ G.Begins seq t ∨ G.Derives seq [] ∧ t ∈ la := by
  have hF := NumberedGrammar.firstSets_isExact hin
  refine ⟨fun n hn => ?_, fun n hn => ?_, fun n hn => ?_, fun x hx => ⟨?_, ?_⟩, fun seq hseq => ⟨?_, ?_⟩⟩
  · exact iterate_eq_saturate G.nullable_fixed hn
  · exact iterate_eq_saturate NumberedGrammar.first_fixed hn
  · exact NumberedGrammar.jointSweep_iterate hin hn
  · exact hF.isNullable_iff x
  · exact hF.testBit_ofSymbol_iff hin hx
  · exact hF.testBit_ofSeq_iff hin hseq
  · exact fun la => ⟨beginnings_pairwise la, fun t => mem_beginnings hin hseq⟩

theorem firstSets_exact_empty_rule :
    let G : NumberedGrammar := ⟨#[⟨0, [1]⟩, ⟨1, []⟩, ⟨1, [2, 1]⟩], 2, 4⟩
    G.InRange ∧ G.Derives [1] [] ∧ G.Begins [1, 3] 3 ∧ ¬ G.Begins [2, 3] 3 := by
  intro G
  have hin : G.InRange := ⟨by decide, by decide, by decide⟩
  obtain ⟨_, _, _, hsymbol, hseq⟩ := firstSets_exact hin
  have hthree := ((hseq [1, 3] (by decide)).1 0 3).mp (by decide +kernel)
  refine ⟨hin, (hsymbol 1 (by decide)).1.mp (by decide), hthree.resolve_right (by simp), fun h => ?_⟩
  exact absurd (((hseq [2, 3] (by decide)).1 0 3).mpr (Or.inl h)) (by decide +kernel)

end Analysis

end Ramify.LR
