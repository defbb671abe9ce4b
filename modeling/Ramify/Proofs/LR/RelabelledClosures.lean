import Ramify.Proofs.LR.Placeholder

/-! Closures whose lookaheads are relabelled. A map of lookahead sets that keeps unions and leaves sets of symbols
alone may be applied before a closure or after it. So a number beyond all symbols stands for any set of lookaheads,
the closure is exact for lookaheads of any size, and it is put together from the closures of its single items. -/

namespace Ramify.LR

section Saturate

variable {α : Type} [DecidableEq α] {f g : α → α}

lemma saturate_of_fixed {a : α} (h : f a = a) (fuel : Nat) : saturate f fuel a = a := by
  cases fuel with
  | zero => rfl
  | succ fuel => rw [saturate, if_pos h]

lemma saturate_comm (h : ∀ a, f (g a) = g (f a)) (fuel : Nat) (a : α) :
    saturate f fuel (g a) = g (saturate f fuel a) := by
  induction fuel generalizing a with
  | zero => rfl
  | succ fuel ih =>
    by_cases ha : f a = a
    · rw [saturate_of_fixed ha, saturate_of_fixed (by rw [h, ha])]
    · rw [saturate, saturate, if_neg ha, ← ih]
      -- The image may settle before the original does, and is then the image of all that follows.
      by_cases hg : f (g a) = g a
      · rw [if_pos hg, ← h, hg, saturate_of_fixed hg]
      · rw [if_neg hg, h]

end Saturate

lemma foldl_comm {α β : Type} {g g' : α → β → α} {m : α → α} {bs : List β}
    (h : ∀ b ∈ bs, ∀ a, g (m a) b = m (g' a b)) (a : α) : bs.foldl g (m a) = m (bs.foldl g' a) := by
  induction bs generalizing a with
  | nil => rfl
  | cons b bs ih =>
    obtain ⟨hfirst, hrest⟩ := List.forall_mem_cons.mp h
    rw [List.foldl_cons, List.foldl_cons, hfirst, ih hrest]

namespace NumberedGrammar

variable {G : NumberedGrammar}

lemma Looks.rename {I J : ItemSet} {a b : Nat} (hitems : I.items ⊆ J.items)
    (hlooks : ∀ i, (i, a) ∈ I.looks → (i, b) ∈ J.looks)
    (hbegins : ∀ i : Item, G.Begins (i.beyond G) a → G.Begins (i.beyond G) b) {i : Item} (h : G.Looks I i a) :
    G.Looks J i b := by
  induction h with
  | base h => exact .base (hlooks _ h)
  | generated hi hr hn hb => exact .generated (hi.mono hitems) hr hn (hbegins _ hb)
  | passed _ hr hn hd ih => exact .passed (ih hlooks hbegins) hr hn hd

lemma Closure.exists_mem {K : Lookaheads} {i : Item} (h : G.Closure (ItemSet.ofLookaheads K).items i) :
    ∃ p ∈ K, G.Closure (ItemSet.ofLookaheads [p]).items i := by
  obtain ⟨k, ⟨la, hk⟩, hi⟩ := h.exists_single
  refine ⟨(k, la), hk, hi.mono ?_⟩
  rintro _ rfl
  exact ⟨la, List.mem_singleton_self _⟩

lemma Looks.exists_mem {K : Lookaheads} {i : Item} {a : Nat} (h : G.Looks (.ofLookaheads K) i a) :
    ∃ p ∈ K, G.Looks (.ofLookaheads [p]) i a := by
  induction h with
  | base h =>
    obtain ⟨la, hk, ha⟩ := h
    exact ⟨_, hk, .base ⟨la, List.mem_singleton_self _, ha⟩⟩
  | generated hi hr hn hb =>
    obtain ⟨p, hp, hi⟩ := hi.exists_mem
    exact ⟨p, hp, .generated hi hr hn hb⟩
  | passed _ hr hn hd ih =>
    obtain ⟨p, hp, hi⟩ := ih
    exact ⟨p, hp, .passed hi hr hn hd⟩

end NumberedGrammar

namespace Analysis

/-- A map of lookahead sets that keeps unions and leaves sets of symbols alone. -/
structure Relabels (G : NumberedGrammar) (σ : Nat → Nat) : Prop where
  union : ∀ la lb, σ (la ||| lb) = σ la ||| σ lb
  symbols : ∀ la < 2 ^ G.symbolCount, σ la = la

def relabel (σ : Nat → Nat) (K : Lookaheads) : Lookaheads := K.map fun (i, la) => (i, σ la)

lemma mergeLookaheads_nil (K : Lookaheads) : mergeLookaheads K [] = K := by
  cases K <;> rw [mergeLookaheads]
  rintro ⟨⟩

section Relabel

variable {G : NumberedGrammar} {σ : Nat → Nat} (hσ : Relabels G σ)

include hσ

lemma Relabels.ofSeq (seq : List Nat) (la : Nat) : G.firstSets.ofSeq seq (σ la) = σ (G.firstSets.ofSeq seq la) := by
  have hfirst : σ (G.firstSets.ofSeq seq 0) = G.firstSets.ofSeq seq 0 :=
    hσ.symbols _ (FirstSets.ofSeq_lt _ NumberedGrammar.ofSymbol_lt seq (Nat.two_pow_pos _))
  rw [FirstSets.ofSeq_eq, FirstSets.ofSeq_eq _ seq la]
  split
  · rw [hσ.union, hfirst]
  · exact hfirst.symm

lemma Relabels.pass {a : Nat} {h : Head} (hh : h ∈ (ofGrammar G).heads.getD a []) (la : Nat) :
    Head.pass h (σ la) = σ (Head.pass h la) := by
  obtain ⟨_, r, _, _, hr⟩ := mem_heads.mp hh
  rw [(pass_of_head? hr).2, (pass_of_head? hr).2, hσ.ofSeq]

omit hσ in
lemma spread_ext {s t : Spread} (hsize : s.size = t.size) (h : ∀ a, s.getD a none = t.getD a none) : s = t := by
  refine Array.ext hsize fun i hs ht => ?_
  rw [getElem_eq_getD hs none, getElem_eq_getD ht none, h]

omit hσ in
lemma getD_map (spread : Spread) (s : Nat) :
    (spread.map (Option.map σ)).getD s none = (spread.getD s none).map σ := by
  rw [Array.getD_eq_getD_getElem?, Array.getD_eq_getD_getElem?, Array.getElem?_map]
  cases spread[s]? <;> rfl

lemma Relabels.addTo (spread : Spread) (s la : Nat) :
    Analysis.addTo (spread.map (Option.map σ)) s (σ la) = (Analysis.addTo spread s la).map (Option.map σ) := by
  refine spread_ext (by simp [addTo_size]) fun t => ?_
  rw [getD_map, addTo_getD, addTo_getD, getD_map, Array.size_map]
  split
  · cases spread.getD t none with
    | none => simp
    | some old => simp [hσ.union]
  · rfl

lemma Relabels.spreadSweep (spread : Spread) : (ofGrammar G).spreadSweep (spread.map (Option.map σ)) =
    ((ofGrammar G).spreadSweep spread).map (Option.map σ) := by
  rw [spreadSweep_eq]
  refine foldl_comm (fun a _ acc => ?_) spread
  rw [spreadStep, spreadStep, getD_map]
  cases acc.getD a none with
  | none => rfl
  | some la => exact foldl_comm (fun h hh acc => by rw [hσ.pass hh, hσ.addTo]) acc

lemma Relabels.directSpread (kernel : Lookaheads) :
    Analysis.directSpread G (relabel σ kernel) = (Analysis.directSpread G kernel).map (Option.map σ) := by
  have hempty : (Array.replicate G.nonterminals none : Spread).map (Option.map σ) =
      Array.replicate G.nonterminals none := Array.map_replicate
  rw [Analysis.directSpread, relabel, List.foldl_map, ← hempty]
  refine foldl_comm (fun (i, la) _ acc => ?_) _
  dsimp only
  split
  · split
    · rw [hσ.ofSeq, hσ.addTo]
    · rfl
  · rfl

lemma Relabels.spreadFrom (kernel : Lookaheads) : (ofGrammar G).spreadFrom (relabel σ kernel) =
    ((ofGrammar G).spreadFrom kernel).map (Option.map σ) := by
  rw [spreadFrom_eq, spreadFrom_eq, hσ.directSpread]
  exact saturate_comm hσ.spreadSweep _ _

omit hσ in
lemma initialLookaheads_map (spread : Spread) : (ofGrammar G).initialLookaheads (spread.map (Option.map σ)) =
    relabel σ ((ofGrammar G).initialLookaheads spread) := by
  rw [relabel, initialLookaheads_eq, initialLookaheads_eq, List.map_filterMap]
  refine List.filterMap_congr fun n _ => ?_
  rw [initialEntry, initialEntry]
  cases G.rules[n]? with
  | none => rfl
  | some r =>
    dsimp only
    rw [getD_map, Option.map_map, Option.map_map]
    rfl

lemma Relabels.mergeLookaheads (K L : Lookaheads) :
    Analysis.mergeLookaheads (relabel σ K) (relabel σ L) = relabel σ (Analysis.mergeLookaheads K L) := by
  simp only [relabel]
  fun_induction Analysis.mergeLookaheads K L with
  | case1 => rw [List.map_nil, Analysis.mergeLookaheads]
  | case2 => rw [List.map_nil, mergeLookaheads_nil]
  | case3 i la K j lb L hcompare ih =>
    simp only [List.map_cons, Analysis.mergeLookaheads, hcompare] at ih ⊢
    rw [ih]
  | case4 i la K j lb L hcompare ih =>
    simp only [List.map_cons, Analysis.mergeLookaheads, hcompare, hσ.union] at ih ⊢
    rw [ih]
  | case5 i la K j lb L hcompare ih =>
    simp only [List.map_cons, Analysis.mergeLookaheads, hcompare] at ih ⊢
    rw [ih]

lemma Relabels.closure (kernel : Lookaheads) :
    (ofGrammar G).closure (relabel σ kernel) = relabel σ ((ofGrammar G).closure kernel) := by
  rw [Analysis.closure, Analysis.closure, hσ.spreadFrom, initialLookaheads_map, hσ.mergeLookaheads]

end Relabel

section Exact

variable {G : NumberedGrammar}

lemma eq_union {x y z : Nat} (h : ∀ b, x.testBit b = true ↔ y.testBit b = true ∨ z.testBit b = true) :
    x = y ||| z := by
  refine Nat.eq_of_testBit_eq fun b => ?_
  rw [Bool.eq_iff_iff, Nat.testBit_or, Bool.or_eq_true, h]

lemma testBit_beyond {la b : Nat} (hla : la < 2 ^ G.symbolCount) (hb : G.symbolCount ≤ b) : la.testBit b = false :=
  Nat.testBit_lt_two_pow (hla.trans_le (Nat.pow_le_pow_right (by decide) hb))

def project (G : NumberedGrammar) (a la : Nat) : Nat :=
  la % 2 ^ G.symbolCount ||| if la.testBit a then 2 ^ G.symbolCount else 0

lemma testBit_project (a la b : Nat) : (project G a la).testBit b = true ↔
    b < G.symbolCount ∧ la.testBit b = true ∨ b = G.symbolCount ∧ la.testBit a = true := by
  rw [project, Nat.testBit_or, Nat.testBit_mod_two_pow, Bool.or_eq_true, Bool.and_eq_true, decide_eq_true_eq]
  refine or_congr_right ?_
  split
  · rename_i ha
    simp [ha, Nat.testBit_two_pow, eq_comm]
  · rename_i ha
    simp [ha]

lemma project_lt (a la : Nat) : project G a la < 2 ^ (G.symbolCount + 1) := by
  refine Nat.lt_pow_two_of_testBit _ fun b hb => ?_
  rw [Bool.eq_false_iff, Ne, testBit_project]
  omega

lemma project_relabels {a : Nat} (ha : G.symbolCount ≤ a) : Relabels G (project G a) := by
  constructor
  · refine fun la lb => eq_union fun b => ?_
    simp only [testBit_project, Nat.testBit_or, Bool.or_eq_true]
    tauto
  · intro la hla
    refine Nat.eq_of_testBit_eq fun b => ?_
    rw [Bool.eq_iff_iff, testBit_project, testBit_beyond hla ha]
    rcases Nat.lt_or_ge b G.symbolCount with hb | hb
    · simp [hb]
    · simp [testBit_beyond hla hb]

lemma exists_projection (hin : G.InRange) (a : Nat) : ∃ m b, G.symbolCount ≤ m ∧
    (∀ la, (project G m la).testBit b = true ↔ la.testBit a = true) ∧
    ∀ i : Item, G.Begins (i.beyond G) a ↔ G.Begins (i.beyond G) b := by
  rcases Nat.lt_or_ge a G.symbolCount with ha | ha
  · refine ⟨G.symbolCount, a, le_rfl, fun la => ?_, fun i => Iff.rfl⟩
    rw [testBit_project]
    simp [ha, ha.ne]
  · refine ⟨a, G.symbolCount, ha, fun la => ?_, fun i => iff_of_false (fun hb => ?_) fun hb => ?_⟩
    · rw [testBit_project]
      simp
    · exact absurd (hb.lt hin (NumberedGrammar.beyond_lt hin i)) ha.not_gt
    · exact absurd (hb.lt hin (NumberedGrammar.beyond_lt hin i)) (lt_irrefl _)

lemma items_relabel (σ : Nat → Nat) (K : Lookaheads) :
    (ItemSet.ofLookaheads (relabel σ K)).items = (ItemSet.ofLookaheads K).items := by
  ext i
  simp [ItemSet.ofLookaheads, relabel]

lemma looks_relabel {σ : Nat → Nat} {a b : Nat} (h : ∀ la, (σ la).testBit b = true ↔ la.testBit a = true)
    (K : Lookaheads) (i : Item) :
    (i, b) ∈ (ItemSet.ofLookaheads (relabel σ K)).looks ↔ (i, a) ∈ (ItemSet.ofLookaheads K).looks := by
  simp [ItemSet.ofLookaheads, relabel, h]

lemma closure_isExact (hin : G.InRange) (kernel : Lookaheads) :
    ItemSet.ofLookaheads ((ofGrammar G).closure kernel) = (ItemSet.ofLookaheads kernel).closure G := by
  -- A projection brings all lookaheads below the bound under which the closure is known to be exact.
  have hprojected : ∀ m, G.symbolCount ≤ m →
      ItemSet.ofLookaheads (relabel (project G m) ((ofGrammar G).closure kernel)) =
        (ItemSet.ofLookaheads (relabel (project G m) kernel)).closure G := by
    intro m hm
    rw [← (project_relabels hm).closure]
    refine closure_exact hin fun p hp => ?_
    obtain ⟨⟨i, la⟩, _, rfl⟩ := List.mem_map.mp hp
    exact project_lt m la
  apply ItemSet.ext
  · have hitems := congrArg ItemSet.items (hprojected G.symbolCount le_rfl)
    rw [items_relabel] at hitems
    rw [hitems, ItemSet.closure, items_relabel]
    rfl
  · ext ⟨i, a⟩
    obtain ⟨m, b, hm, hbit, hbegins⟩ := exists_projection hin a
    have hlooks := Set.ext_iff.mp (congrArg ItemSet.looks (hprojected m hm)) (i, b)
    rw [looks_relabel hbit] at hlooks
    refine hlooks.trans ⟨fun h => ?_, fun h => ?_⟩
    · exact h.rename (items_relabel _ _).subset (fun j => (looks_relabel hbit kernel j).mp) fun j => (hbegins j).mpr
    · exact h.rename (items_relabel _ _).superset (fun j => (looks_relabel hbit kernel j).mpr) fun j => (hbegins j).mp

end Exact

section Substitute

variable {G : NumberedGrammar}

def substitute (mark L la : Nat) : Nat := if la.testBit mark then la ^^^ 1 <<< mark ||| L else la

lemma testBit_substitute (mark L la b : Nat) : (substitute mark L la).testBit b = true ↔
    b ≠ mark ∧ la.testBit b = true ∨ la.testBit mark = true ∧ L.testBit b = true := by
  rw [substitute]
  split
  · rename_i hmark
    rw [Nat.testBit_or, Nat.testBit_xor, Nat.one_shiftLeft, Nat.testBit_two_pow, Bool.or_eq_true]
    by_cases hb : b = mark
    · simp [hb, hmark]
    · simp [hb, Ne.symm hb, hmark]
  · rename_i hmark
    have hne : la.testBit b = true → b ≠ mark := by
      rintro hb rfl
      exact hmark hb
    exact ⟨fun hb => Or.inl ⟨hne hb, hb⟩, fun h => h.elim And.right fun hb => absurd hb.1 hmark⟩

lemma substitute_relabels {mark : Nat} (hmark : G.symbolCount ≤ mark) (L : Nat) : Relabels G (substitute mark L) := by
  constructor
  · refine fun la lb => eq_union fun b => ?_
    simp only [testBit_substitute, Nat.testBit_or, Bool.or_eq_true]
    tauto
  · intro la hla
    rw [substitute, testBit_beyond hla hmark, if_neg Bool.false_ne_true]

lemma closure_substitute {mark : Nat} (hmark : G.symbolCount ≤ mark) (k : Item) (L : Nat) :
    (ofGrammar G).closure [(k, L)] =
      relabel (substitute mark L) ((ofGrammar G).closure [(k, 1 <<< mark)]) := by
  have hplace : substitute mark L (1 <<< mark) = L := by
    rw [substitute, Nat.one_shiftLeft, Nat.testBit_two_pow_self, if_pos rfl, Nat.xor_self, Nat.zero_or]
  have hmarked : relabel (substitute mark L) [(k, 1 <<< mark)] = [(k, L)] := by
    rw [relabel, List.map_singleton]
    exact congrArg (fun la => [(k, la)]) hplace
  rw [← (substitute_relabels hmark L).closure, hmarked]

end Substitute

section Union

variable {G : NumberedGrammar}

lemma Sorted.nodup {K : Lookaheads} (h : Sorted K) : (K.map Prod.fst).Nodup := List.Pairwise.nodup h

lemma Sorted.looks_iff {K : Lookaheads} (h : Sorted K) {i : Item} {la : Nat} (hi : (i, la) ∈ K) (a : Nat) :
    (i, a) ∈ (ItemSet.ofLookaheads K).looks ↔ la.testBit a = true := by
  constructor
  · rintro ⟨lb, hi', ha⟩
    rw [← lookup_eq_some_iff_mem h.nodup] at hi hi'
    rwa [Option.some.inj (hi.symm.trans hi')]
  · exact fun ha => ⟨la, hi, ha⟩

lemma Sorted.mem_of_eq {K L : Lookaheads} (hK : Sorted K) (hL : Sorted L)
    (h : ItemSet.ofLookaheads K = ItemSet.ofLookaheads L) {p : Item × Nat} (hp : p ∈ K) : p ∈ L := by
  obtain ⟨i, la⟩ := p
  obtain ⟨lb, hi⟩ : i ∈ (ItemSet.ofLookaheads L).items := h ▸ ⟨la, hp⟩
  have heq : la = lb := by
    refine Nat.eq_of_testBit_eq fun a => ?_
    rw [Bool.eq_iff_iff, ← hK.looks_iff hp, h, hL.looks_iff hi]
  rwa [heq]

lemma Sorted.ext {K L : Lookaheads} (hK : Sorted K) (hL : Sorted L)
    (h : ItemSet.ofLookaheads K = ItemSet.ofLookaheads L) : K = L := by
  have hperm : K.Perm L := (List.perm_ext_iff_of_nodup hK.nodup.of_map hL.nodup.of_map).mpr fun p =>
    ⟨hK.mem_of_eq hL h, hL.mem_of_eq hK h.symm⟩
  refine hperm.eq_of_pairwise (fun p q _ _ hpq hqp => ?_) (List.pairwise_map.mp hK) (List.pairwise_map.mp hL)
  exact absurd (IsTrans.trans _ _ _ hpq hqp) (Std.Irrefl.irrefl _)

def union (Ks : List Lookaheads) : Lookaheads := Ks.foldr mergeLookaheads []

lemma exists_mem_union {Q : Nat → Prop} (hQ : ∀ la lb, Q (la ||| lb) ↔ Q la ∨ Q lb) (Ks : List Lookaheads) (i : Item) :
    (∃ la, (i, la) ∈ union Ks ∧ Q la) ↔ ∃ K ∈ Ks, ∃ la, (i, la) ∈ K ∧ Q la := by
  rw [union]
  induction Ks with
  | nil => simp
  | cons K Ks ih => rw [List.foldr_cons, exists_mem_merge hQ, ih, List.exists_mem_cons_iff]

lemma mem_items_union (Ks : List Lookaheads) (i : Item) :
    i ∈ (ItemSet.ofLookaheads (union Ks)).items ↔ ∃ K ∈ Ks, i ∈ (ItemSet.ofLookaheads K).items := by
  have hmem := exists_mem_union (Q := fun _ => True) (by simp) Ks i
  simp only [and_true] at hmem
  exact hmem

lemma mem_looks_union (Ks : List Lookaheads) (i : Item) (a : Nat) :
    (i, a) ∈ (ItemSet.ofLookaheads (union Ks)).looks ↔ ∃ K ∈ Ks, (i, a) ∈ (ItemSet.ofLookaheads K).looks :=
  exists_mem_union (by simp) Ks i

lemma sorted_union {Ks : List Lookaheads} (h : ∀ K ∈ Ks, Sorted K) : Sorted (union Ks) := by
  rw [union]
  induction Ks with
  | nil => exact List.Pairwise.nil
  | cons K Ks ih =>
    obtain ⟨hK, hKs⟩ := List.forall_mem_cons.mp h
    exact hK.mergeLookaheads (ih hKs)

lemma single_subset {K : Lookaheads} {p : Item × Nat} (hp : p ∈ K) :
    (ItemSet.ofLookaheads [p]).items ⊆ (ItemSet.ofLookaheads K).items ∧
      (ItemSet.ofLookaheads [p]).looks ⊆ (ItemSet.ofLookaheads K).looks := by
  constructor
  · rintro i ⟨la, hi⟩
    exact ⟨la, List.mem_singleton.mp hi ▸ hp⟩
  · rintro q ⟨la, hi, ha⟩
    exact ⟨la, List.mem_singleton.mp hi ▸ hp, ha⟩

lemma closure_eq_union (hin : G.InRange) {kernel : Lookaheads} (hk : Sorted kernel) :
    (ofGrammar G).closure kernel = union (kernel.map fun p => (ofGrammar G).closure [p]) := by
  have hsorted : Sorted (union (kernel.map fun p => (ofGrammar G).closure [p])) := by
    refine sorted_union (List.forall_mem_map.mpr fun p _ => ?_)
    exact Sorted.closure (List.pairwise_singleton _ _)
  refine hk.closure.ext hsorted ?_
  rw [closure_isExact hin]
  apply ItemSet.ext
  · ext i
    rw [mem_items_union]
    constructor
    · intro h
      obtain ⟨p, hp, hi⟩ := NumberedGrammar.Closure.exists_mem h
      refine ⟨_, List.mem_map_of_mem hp, ?_⟩
      rwa [closure_isExact hin]
    · rintro ⟨_, hK, hi⟩
      obtain ⟨p, hp, rfl⟩ := List.mem_map.mp hK
      rw [closure_isExact hin] at hi
      exact NumberedGrammar.Closure.mono (single_subset hp).1 hi
  · ext ⟨i, a⟩
    rw [mem_looks_union]
    constructor
    · intro h
      obtain ⟨p, hp, hi⟩ := NumberedGrammar.Looks.exists_mem h
      refine ⟨_, List.mem_map_of_mem hp, ?_⟩
      rwa [closure_isExact hin]
    · rintro ⟨_, hK, hi⟩
      obtain ⟨p, hp, rfl⟩ := List.mem_map.mp hK
      rw [closure_isExact hin] at hi
      exact NumberedGrammar.Looks.mono (single_subset hp).1 (single_subset hp).2 hi

end Union

end Analysis

end Ramify.LR
