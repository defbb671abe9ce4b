import Ramify.Proofs.LR.Charts
import Ramify.Proofs.LR.KeyedSets

/-! Charts that are computed. The items of a kernel are the bits of a number, so are the terminals behind a
nonterminal, and the frames are the kernels of all states. What follows a nonterminal is estimated
for each class of frames, where the class of a frame is how many of some marked nonterminals begin in
it. How frames and estimates are found does not matter: it is checked that they make a chart. -/

namespace Ramify.LR

def Item.place (i : Item) : Nat := 8 * i.rule + i.dot

namespace BitChart

open Bits

structure Spot where
  place : Nat
  symbol : Nat
  behind : Option Nat
  initial : Bool
  left : Nat

/-- What follows the nonterminals in each class of frames, which has some items, and in all frames. -/
structure Estimate where
  marks : List Nat
  classes : List (Nat × Nat)
  total : Nat

structure Exempt where
  spare : Nat
  loose : Nat × Nat
  returns : List Nat

section Definitions

variable (G : NumberedGrammar)

def width : Nat := 8 * G.rules.size

def spots : List Spot := G.rules.toList.zipIdx.flatMap fun p =>
  p.1.right.zipIdx.map fun q => ⟨8 * p.2 + q.2, q.1, p.1.right[q.2 + 1]?, q.2.beq 0, p.1.left⟩

def inner : List Spot := (spots G).filter fun s => s.symbol.blt G.nonterminals

def before (x : Nat) : Nat := row (width G) (tabulate (width G) ((spots G).map fun s => (s.symbol, s.place))) x

def initial (n : Nat) : Nat :=
  row (width G) (tabulate (width G) (G.rules.toList.zipIdx.map fun p => (p.1.left, 8 * p.2))) n

def initialIndex : Index Nat := .ofList ((List.range G.nonterminals).map fun n => (before G n, initial G n))

def closing : Nat → Nat → Nat → Nat
  | 0, I, _ => I
  | fuel + 1, I, new =>
    bif new.beq 0 then I
    else closing fuel (I ||| (initialIndex G).unionMeeting new) ((I ||| (initialIndex G).unionMeeting new) ^^^ I)

def closed (n : Nat) : Nat := closing G G.nonterminals (initial G n) (initial G n)

def closedIndex : Index Nat := .ofList ((List.range G.nonterminals).map fun n => (before G n, closed G n))

def close (K : Nat) : Nat := K ||| (closedIndex G).unionMeeting K

def next (K x : Nat) : Nat := (close G K &&& before G x) <<< 1

def terminalIndex : Index Nat :=
  .ofList ((List.range' G.nonterminals G.terminals).map fun a => (before G a, 1 <<< a))

def endIndex : Index (Nat × Nat) :=
  .ofList (G.rules.toList.zipIdx.map fun p => (1 <<< (8 * p.2 + p.1.right.length), p.2, p.1.left))

def first (x : Nat) : Nat :=
  bif x.blt G.nonterminals then row G.symbolCount
    (pack G.symbolCount ((List.range G.nonterminals).map fun n => (terminalIndex G).unionMeeting (closed G n))) x
  else 1 <<< x

def fresh (I : Nat) (groups : List (Nat × List Nat)) (todo : List Nat) : List Nat :=
  groups.foldr (fun e todo => bif listed ((I &&& e.1) <<< 1) e.2 then todo else ((I &&& e.1) <<< 1) :: todo) todo

def absorb (I : Nat) (frames : Index (List Nat)) : Index (List Nat) :=
  frames.update I fun key group => bif listed ((I &&& key) <<< 1) group then group else ((I &&& key) <<< 1) :: group

def explore : Nat → List Nat → Index (List Nat) → Index (List Nat)
  | 0, _, frames => frames
  | _, [], frames => frames
  | fuel + 1, K :: todo, frames =>
    explore fuel (fresh (close G K) (frames.meeting (close G K) []) todo) (absorb (close G K) frames)

def unexplored : Index (List Nat) := .ofList ((List.range G.symbolCount).map fun x => (before G x, []))

def frames : Index (List Nat) := explore G 1000 [1] (unexplored G)

def kernels : List Nat := 1 :: (frames G).entries.flatMap Prod.snd

def classOf (I : Nat) : List Nat → Nat
  | [] => 0
  | n :: marks => bif disjoint I (initial G n) then classOf I marks else classOf I marks + 1

def classItems (marks : List Nat) (c : Nat) : List Nat → Nat
  | [] => 0
  | K :: rest =>
    bif (classOf G (close G K) marks).beq c then close G K ||| classItems marks c rest else classItems marks c rest

def behind (F total : Nat) (s : Spot) : Nat :=
  match s.behind with
  | some y => first G y
  | none => bif s.initial then row G.symbolCount F s.left else row G.symbolCount total s.left

def sweep (I total : Nat) : List Spot → Nat → Nat
  | [], F => F
  | s :: rest, F =>
    bif disjoint I (1 <<< s.place) then sweep I total rest F
    else sweep I total rest (F ||| behind G F total s <<< (G.symbolCount * s.symbol))

namespace Estimate

def refine (E : Estimate) : Estimate :=
  let classes := E.classes.map fun c => (c.1, sweep G c.1 E.total (inner G).reverse c.2)
  ⟨E.marks, classes, E.total ||| union classes⟩

def rows (E : Estimate) : Nat := pack (G.symbolCount * G.nonterminals) (E.classes.map Prod.snd)

def settle : Nat → Estimate → Estimate
  | 0, E => E
  | fuel + 1, E => bif ((E.refine G).rows G).beq (E.rows G) then E else settle fuel (E.refine G)

def ofMarks (marks : List Nat) : Estimate :=
  settle G G.rules.size
    ⟨marks, (List.range (marks.length + 1)).map fun c => (classItems G marks c (kernels G), 1 <<< G.endSymbol),
      1 <<< G.endSymbol⟩

def classAt (E : Estimate) (K : Nat) : Nat × Nat := E.classes.getD (classOf G (close G K) E.marks) (0, 0)

end Estimate

def closedOk : Bool := (List.range G.nonterminals).all fun n =>
  within (initial G n) (closed G n) && ((initialIndex G).meeting (closed G n) []).all fun e => within e.2 (closed G n)

def firstOk : Bool := G.rules.toList.all fun r =>
  r.right.length.blt 8 && r.right.head?.any fun x => within (first G x) (first G r.left)

variable (E : Estimate) (X : Exempt)

def classesOk : Bool := E.classes.all fun c => within c.2 E.total && (inner G).all fun s =>
  disjoint c.1 (1 <<< s.place) || within (behind G c.2 E.total s) (row G.symbolCount c.2 s.symbol)

def startOk : Bool := G.rules.toList.head?.all fun r =>
  within (1 <<< G.endSymbol) (row G.symbolCount (E.classAt G 1).2 r.left)

def shiftable (I : Nat) : Nat := (terminalIndex G).unionMeeting (without I (8 * X.spare))

def ends (I : Nat) : List (Nat × Nat × Nat) := ((endIndex G).meeting I []).filter fun e => !(e.2.1.beq X.spare)

def apart : List (Nat × Nat × Nat) → Nat → Bool
  | [], _ => true
  | e :: rest, seen => disjoint (row G.symbolCount E.total e.2.2) seen &&
      apart rest (row G.symbolCount E.total e.2.2 ||| seen)

def endsOk (I : Nat) : Bool := apart G E (ends G X I) 0 && (ends G X I).all fun e =>
  X.returns.contains e.2.1 || disjoint (bif e.2.1.beq X.loose.1 then without (row G.symbolCount E.total e.2.2) X.loose.2
    else row G.symbolCount E.total e.2.2) (shiftable G X I)

def singleOk : Bool := X.returns.all fun p => G.rules.toList[p]?.all fun r => r.right.length.beq 1

def returnsOk (K : Nat) : Bool := X.returns.all fun p => disjoint (close G K) (1 <<< (8 * p)) ||
  G.rules.toList[p]?.all fun r => r.right.all fun x =>
    disjoint (row G.symbolCount (E.classAt G K).2 r.left) (shiftable G X (close G (next G K x)))

def frameOk (K : Nat) : Bool :=
  within (close G K) (E.classAt G K).1 &&
    ((frames G).meeting (close G K) []).all (fun e => listed ((close G K &&& e.1) <<< 1) e.2) &&
    (endsOk G E X (close G K) && returnsOk G E X K)

def check : Bool :=
  closedOk G && firstOk G && (classesOk G E && startOk G E) && (singleOk G X && (kernels G).all (frameOk G E X))

def chart : Chart Nat where
  known K := K ∈ kernels G
  start := 1
  next := next G
  items K := {i | i.dot < 8 ∧ (close G K).testBit i.place = true}
  heads x a := (first G x).testBit a = true
  follows K n a := (row G.symbolCount (E.classAt G K).2 n).testBit a = true
  anywhere n a := (row G.symbolCount E.total n).testBit a = true

end Definitions

section Items

variable {G : NumberedGrammar} {i : Item} {x K n b : Nat} {r : NumberedRule}

lemma place_inj {i j : Item} (hi : i.dot < 8) (hj : j.dot < 8) (h : i.place = j.place) : i = j := by
  obtain ⟨p, d⟩ := i
  obtain ⟨q, e⟩ := j
  simp only [Item.place] at hi hj h
  obtain rfl : p = q := by omega
  obtain rfl : d = e := by omega
  rfl

lemma exists_spot (h : i.next? G = some x) : ∃ r, G.rules[i.rule]? = some r ∧ r.right[i.dot]? = some x ∧
    ⟨i.place, x, r.right[i.dot + 1]?, i.dot.beq 0, r.left⟩ ∈ spots G := by
  obtain ⟨r, hr, hx⟩ := NumberedGrammar.exists_rule_at h
  refine ⟨r, hr, hx, List.mem_flatMap.mpr ⟨(r, i.rule), ?_, List.mem_map.mpr ⟨(x, i.dot), ?_, rfl⟩⟩⟩
  · rw [List.mem_zipIdx_iff_getElem?, Array.getElem?_toList]
    exact hr
  · rw [List.mem_zipIdx_iff_getElem?]
    exact hx

section First

variable (hfirst : firstOk G = true)

include hfirst

lemma length_lt (hr : r ∈ G.rules) : r.right.length < 8 := by
  have h := List.all_eq_true.mp hfirst r (Array.mem_toList_iff.mpr hr)
  exact Nat.blt_eq ▸ (Bool.and_eq_true_iff.mp h).1

lemma first_head (hr : r ∈ G.rules) : ∃ x, r.right.head? = some x ∧ within (first G x) (first G r.left) = true := by
  have h := List.all_eq_true.mp hfirst r (Array.mem_toList_iff.mpr hr)
  have hany := (Bool.and_eq_true_iff.mp h).2
  cases hx : r.right.head? with
  | none =>
    rw [hx] at hany
    cases hany
  | some x =>
    rw [hx] at hany
    exact ⟨x, rfl, hany⟩

lemma dot_lt (h : i.next? G = some x) : i.dot + 1 < 8 := by
  obtain ⟨r, hr, hx, _⟩ := exists_spot h
  have hlen := length_lt hfirst (Array.mem_of_getElem? hr)
  have hdot := (List.getElem?_eq_some_iff.mp hx).1
  omega

lemma testBit_before (h : i.next? G = some x) : (before G x).testBit i.place = true := by
  obtain ⟨r, hr, hx, hspot⟩ := exists_spot h
  have hdot := dot_lt hfirst h
  have hrule := (Array.getElem?_eq_some_iff.mp hr).1
  refine testBit_row_tabulate (List.mem_map.mpr ⟨_, hspot, rfl⟩) ?_
  rw [width, Item.place]
  omega

end First

lemma testBit_initial (hr : G.rules[n]? = some r) : (initial G r.left).testBit (8 * n) = true := by
  have hn := (Array.getElem?_eq_some_iff.mp hr).1
  refine testBit_row_tabulate (List.mem_map.mpr ⟨(r, n), ?_, rfl⟩) (Nat.mul_lt_mul_of_pos_left hn (by decide))
  rw [List.mem_zipIdx_iff_getElem?, Array.getElem?_toList]
  exact hr

section Close

variable (hfirst : firstOk G = true) (hclosed : closedOk G = true)

lemma testBit_close (h : K.testBit b = true) : (close G K).testBit b = true := by
  rw [close, Nat.testBit_or, h, Bool.true_or]

include hclosed in
lemma initial_within_closed (hn : n < G.nonterminals) : within (initial G n) (closed G n) = true :=
  (Bool.and_eq_true_iff.mp (List.all_eq_true.mp hclosed n (List.mem_range.mpr hn))).1

include hfirst hclosed

lemma closed_initial (hn : n < G.nonterminals) (hi : (closed G n).testBit i.place = true) (hx : i.next? G = some x)
    (hlt : x < G.nonterminals) : within (initial G x) (closed G n) = true := by
  have hall := (Bool.and_eq_true_iff.mp (List.all_eq_true.mp hclosed n (List.mem_range.mpr hn))).2
  refine List.all_eq_true.mp hall (before G x, initial G x) ?_
  refine (Index.valid_ofList _).mem_meeting (Index.mem_ofList.mpr ?_) hi (testBit_before hfirst hx)
  exact List.mem_map_of_mem (List.mem_range.mpr hlt)

lemma close_initial (hi : (close G K).testBit i.place = true) (hx : i.next? G = some x) (hlt : x < G.nonterminals)
    (hb : (initial G x).testBit b = true) : (close G K).testBit b = true := by
  have hor : ∀ c, (close G K).testBit c = (K.testBit c || ((closedIndex G).unionMeeting K).testBit c) :=
    fun c => Nat.testBit_or _ _ _
  rw [hor, Bool.or_eq_true] at hi ⊢
  right
  rcases hi with hi | hi
  · refine (Index.valid_ofList _).testBit_unionMeeting (e := (before G x, closed G x)) ?_ hi (testBit_before hfirst hx) ?_
    · exact Index.mem_ofList.mpr (List.mem_map_of_mem (List.mem_range.mpr hlt))
    · exact testBit_of_within (initial_within_closed hclosed hlt) hb
  · obtain ⟨e, he, hi⟩ := testBit_union.mp hi
    refine testBit_union.mpr ⟨e, he, ?_⟩
    rcases Index.mem_of_mem_meeting he with hentry | hnil
    · obtain ⟨n, hn, rfl⟩ := List.mem_map.mp (Index.mem_ofList.mp hentry)
      exact testBit_of_within (closed_initial hfirst hclosed (List.mem_range.mp hn) hi hx hlt) hb
    · cases hnil

omit hclosed in
lemma next_advance (hi : (close G K).testBit i.place = true) (hx : i.next? G = some x) :
    (close G (next G K x)).testBit i.advance.place = true := by
  refine testBit_close ?_
  rw [next, Nat.testBit_shiftLeft, Item.advance, Item.place, ← Nat.add_assoc, Nat.add_sub_cancel, Nat.testBit_and]
  rw [Item.place] at hi
  have hbefore := testBit_before hfirst hx
  rw [Item.place] at hbefore
  rw [hi, hbefore]
  simp

end Close

lemma explore_valid (fuel : Nat) (todo : List Nat) {frames : Index (List Nat)} (h : frames.Valid) :
    (explore G fuel todo frames).Valid ∧ (explore G fuel todo frames).keys = frames.keys := by
  induction fuel generalizing todo frames with
  | zero => exact ⟨h, rfl⟩
  | succ fuel ih =>
    cases todo with
    | nil => exact ⟨h, rfl⟩
    | cons K todo =>
      obtain ⟨hv, hk⟩ := ih (fresh (close G K) (frames.meeting (close G K) []) todo) (h.update (m := close G K) _)
      exact ⟨hv, hk.trans (Index.keys_update _)⟩

lemma frames_valid : (frames G).Valid ∧ (frames G).keys = (unexplored G).keys :=
  explore_valid 1000 [1] (Index.valid_ofList _)

lemma exists_group (hx : x < G.symbolCount) : ∃ group, (before G x, group) ∈ (frames G).entries := by
  have hmem : before G x ∈ (unexplored G).keys := by
    refine List.mem_map.mpr ⟨(before G x, []), Index.mem_ofList.mpr ?_, rfl⟩
    exact List.mem_map_of_mem (List.mem_range.mpr hx)
  obtain ⟨⟨_, group⟩, he, rfl⟩ := List.mem_map.mp (frames_valid.2.symm ▸ hmem)
  exact ⟨group, he⟩

end Items

section Follows

variable {G : NumberedGrammar} {E : Estimate} {X : Exempt} {i : Item} {x K n a b : Nat} {r : NumberedRule}
  (hframe : frameOk G E X K = true)

include hframe

lemma next_mem_kernels (hfirst : firstOk G = true) (hi : (close G K).testBit i.place = true)
    (hx : i.next? G = some x) (hlt : x < G.symbolCount) : next G K x ∈ kernels G := by
  obtain ⟨group, hgroup⟩ := exists_group hlt
  have hall := (Bool.and_eq_true_iff.mp (Bool.and_eq_true_iff.mp hframe).1).2
  have hlisted := List.all_eq_true.mp hall _ (frames_valid.1.mem_meeting hgroup hi (testBit_before hfirst hx))
  exact List.mem_cons_of_mem _ (List.mem_flatMap.mpr ⟨_, hgroup, listed_iff.mp hlisted⟩)

lemma classAt_mem (hb : (close G K).testBit b = true) :
    E.classAt G K ∈ E.classes ∧ (E.classAt G K).1.testBit b = true := by
  have hbit := testBit_of_within (Bool.and_eq_true_iff.mp (Bool.and_eq_true_iff.mp hframe).1).1 hb
  refine ⟨?_, hbit⟩
  rw [Estimate.classAt, List.getD_eq_getElem?_getD] at hbit ⊢
  cases hc : E.classes[classOf G (close G K) E.marks]? with
  | none =>
    rw [hc, Option.getD_none, Nat.zero_testBit] at hbit
    cases hbit
  | some c => exact List.mem_of_getElem? hc

lemma testBit_follows (hclasses : classesOk G E = true) (hi : (close G K).testBit i.place = true)
    (hn : n < G.nonterminals) {y : Option Nat} {initial : Bool} {left : Nat}
    (hspot : ⟨i.place, n, y, initial, left⟩ ∈ spots G)
    (ha : (behind G (E.classAt G K).2 E.total ⟨i.place, n, y, initial, left⟩).testBit a = true) :
    (row G.symbolCount (E.classAt G K).2 n).testBit a = true := by
  obtain ⟨hmem, hbit⟩ := classAt_mem hframe hi
  have hclass := (Bool.and_eq_true_iff.mp (List.all_eq_true.mp hclasses _ hmem)).2
  have hinner := List.all_eq_true.mp hclass _ (List.mem_filter.mpr ⟨hspot, Nat.blt_eq ▸ hn⟩)
  rw [Bool.or_eq_true, not_disjoint_single hbit] at hinner
  exact testBit_of_within (hinner.resolve_left Bool.false_ne_true) ha

end Follows

lemma beyond_eq_cons {G : NumberedGrammar} {i : Item} {r : NumberedRule} {y : Nat} {rest : List Nat}
    (hr : G.rules[i.rule]? = some r) (h : i.beyond G = y :: rest) : r.right[i.dot + 1]? = some y := by
  rw [Item.beyond, NumberedGrammar.right_eq hr] at h
  rw [← List.head?_drop, h]
  rfl

lemma beyond_eq_nil {G : NumberedGrammar} {i : Item} {r : NumberedRule} (hr : G.rules[i.rule]? = some r)
    (h : i.beyond G = []) : r.right[i.dot + 1]? = none := by
  rw [Item.beyond, NumberedGrammar.right_eq hr] at h
  rw [← List.head?_drop, h]
  rfl

section Ends

variable {G : NumberedGrammar} {E : Estimate} {X : Exempt} {I p q a : Nat} {r r' : NumberedRule}

lemma pairwise_of_apart {l : List (Nat × Nat × Nat)} {seen : Nat} (h : apart G E l seen = true) :
    (∀ e ∈ l, ∀ a, (row G.symbolCount E.total e.2.2).testBit a = true → seen.testBit a = false) ∧
      l.Pairwise fun e e' => ∀ a, ¬ ((row G.symbolCount E.total e.2.2).testBit a = true ∧
        (row G.symbolCount E.total e'.2.2).testBit a = true) := by
  induction l generalizing seen with
  | nil => exact ⟨List.forall_mem_nil _, .nil⟩
  | cons e l ih =>
    rw [apart, Bool.and_eq_true] at h
    obtain ⟨hall, hpairs⟩ := ih h.2
    have hsplit : ∀ e' ∈ l, ∀ a, (row G.symbolCount E.total e'.2.2).testBit a = true →
        (row G.symbolCount E.total e.2.2).testBit a = false ∧ seen.testBit a = false := by
      intro e' he' a ha
      rw [← Bool.or_eq_false_iff, ← Nat.testBit_or]
      exact hall e' he' a ha
    refine ⟨List.forall_mem_cons.mpr ⟨fun a => testBit_of_disjoint h.1, fun e' he' a ha => (hsplit e' he' a ha).2⟩, ?_⟩
    refine List.pairwise_cons.mpr ⟨fun e' he' a hboth => ?_, hpairs⟩
    exact Bool.false_ne_true ((hsplit e' he' a hboth.2).1.symm.trans hboth.1)

lemma mem_ends (hr : G.rules[p]? = some r) (hp : p ≠ X.spare) (hI : I.testBit (8 * p + r.right.length) = true) :
    (1 <<< (8 * p + r.right.length), p, r.left) ∈ ends G X I := by
  refine List.mem_filter.mpr ⟨(Index.valid_ofList _).mem_meeting (Index.mem_ofList.mpr ?_) hI ?_, ?_⟩
  · refine List.mem_map.mpr ⟨(r, p), ?_, rfl⟩
    rw [List.mem_zipIdx_iff_getElem?, Array.getElem?_toList]
    exact hr
  · exact testBit_one_shiftLeft.mpr rfl
  · rw [Bool.not_eq_true', Bool.eq_false_iff]
    exact fun he => hp (Nat.eq_of_beq_eq_true he)

lemma eq_of_ends (hends : endsOk G E X I = true) (hr : G.rules[p]? = some r) (hr' : G.rules[q]? = some r')
    (hp : p ≠ X.spare) (hq : q ≠ X.spare) (hI : I.testBit (8 * p + r.right.length) = true)
    (hI' : I.testBit (8 * q + r'.right.length) = true) (ha : (row G.symbolCount E.total r.left).testBit a = true)
    (ha' : (row G.symbolCount E.total r'.left).testBit a = true) : p = q := by
  by_contra hne
  have hsymm : Std.Symm fun e e' : Nat × Nat × Nat => ∀ a, ¬ ((row G.symbolCount E.total e.2.2).testBit a = true ∧
      (row G.symbolCount E.total e'.2.2).testBit a = true) := ⟨fun _ _ hn a hboth => hn a hboth.symm⟩
  have hpairs := (pairwise_of_apart (Bool.and_eq_true_iff.mp hends).1).2
  refine hpairs.forall (mem_ends hr hp hI) (mem_ends hr' hq hI') (fun he => hne ?_) a ⟨ha, ha'⟩
  exact congrArg (fun e => e.2.1) he

end Ends

lemma testBit_shiftable {G : NumberedGrammar} {X : Exempt} {I a : Nat} {j : Item} (hw : G.WellFormed)
    (hfirst : firstOk G = true) (hdot : j.dot < 8) (hI : I.testBit j.place = true) (hne : j ≠ ⟨X.spare, 0⟩)
    (ha : G.nonterminals ≤ a) (hj : j.next? G = some a) : (shiftable G X I).testBit a = true := by
  have hlt := NumberedGrammar.right_symbols_lt hw.inRange _ _ (List.mem_of_getElem? hj)
  have hplace : j.place ≠ 8 * X.spare := fun he => hne (place_inj hdot (Nat.succ_pos 7) he)
  refine (Index.valid_ofList _).testBit_unionMeeting (e := (before G a, 1 <<< a)) ?_ (testBit_without hI hplace)
    (testBit_before hfirst hj) (testBit_one_shiftLeft.mpr rfl)
  refine Index.mem_ofList.mpr (List.mem_map.mpr ⟨a, List.mem_range'_1.mpr ⟨ha, ?_⟩, rfl⟩)
  rw [NumberedGrammar.terminals]
  omega

section Check

variable {G : NumberedGrammar} {E : Estimate} {X : Exempt} (hw : G.WellFormed) (h : check G E X = true)

include hw h

theorem covers_of_check : (chart G E).Covers G := by
  obtain ⟨⟨⟨hclosed, hfirst⟩, hclasses, hstart⟩, _, hframes⟩ := by
    simpa only [check, Bool.and_eq_true] using h
  have hframe : ∀ K ∈ kernels G, frameOk G E X K = true := List.all_eq_true.mp hframes
  have hlt : ∀ {i : Item} {x : Nat}, i.next? G = some x → x < G.symbolCount :=
    fun hx => NumberedGrammar.right_symbols_lt hw.inRange _ _ (List.mem_of_getElem? hx)
  constructor
  case right_ne_nil =>
    intro r hr hnil
    obtain ⟨x, hx, _⟩ := first_head hfirst hr
    rw [hnil] at hx
    cases hx
  case heads_terminal =>
    intro a ha
    change (first G a).testBit a = true
    rw [first, Bool.eq_false_iff.mpr fun hlt => Nat.not_lt.mpr ha (Nat.blt_eq.mp hlt), cond_false]
    exact testBit_one_shiftLeft.mpr rfl
  case heads_left =>
    intro r hr x a hx ha
    obtain ⟨x', hx', hwithin⟩ := first_head hfirst hr
    obtain rfl := Option.some.inj (hx.symm.trans hx')
    exact testBit_of_within hwithin ha
  case start_known => exact List.mem_cons_self
  case start_mem => exact ⟨by decide, testBit_close (K := 1) (b := 0) rfl⟩
  case start_follows =>
    intro r hr
    rw [startOk, List.head?_eq_getElem?, Array.getElem?_toList, hr] at hstart
    exact testBit_of_within hstart (testBit_one_shiftLeft.mpr rfl)
  case anywhere_of_follows =>
    intro K n a hK hf
    change (row G.symbolCount E.total n).testBit a = true
    change (row G.symbolCount (E.classAt G K).2 n).testBit a = true at hf
    rw [Estimate.classAt, List.getD_eq_getElem?_getD] at hf
    cases hc : E.classes[classOf G (close G K) E.marks]? with
    | none =>
      rw [hc, Option.getD_none, testBit_row, Nat.zero_testBit] at hf
      cases hf
    | some c =>
      rw [hc, Option.getD_some] at hf
      exact testBit_row_of_within (Bool.and_eq_true_iff.mp (List.all_eq_true.mp hclasses c (List.mem_of_getElem? hc))).1 hf
  case initial_mem =>
    rintro K i n r hK ⟨_, hi⟩ hr hx
    have hleft := hw.left_lt _ (Array.mem_of_getElem? hr)
    exact ⟨Nat.succ_pos 7, close_initial hfirst hclosed hi hx hleft (testBit_initial hr)⟩
  case known_next =>
    rintro K i x hK ⟨_, hi⟩ hx
    exact next_mem_kernels (hframe K hK) hfirst hi hx (hlt hx)
  case advance_mem =>
    rintro K i x hK ⟨_, hi⟩ hx
    exact ⟨dot_lt hfirst hx, next_advance hfirst hi hx⟩
  case follows_head =>
    rintro K i n y rest a hK ⟨_, hi⟩ hx hn hbeyond ha
    obtain ⟨r, hr, _, hspot⟩ := exists_spot hx
    rw [beyond_eq_cons hr hbeyond] at hspot
    exact testBit_follows (hframe K hK) hclasses hi hn hspot ha
  case follows_initial =>
    rintro K i n r a hK ⟨_, hi⟩ hx hn hbeyond hdot hr ha
    obtain ⟨r', hr', _, hspot⟩ := exists_spot hx
    obtain rfl := Option.some.inj (hr.symm.trans hr')
    rw [beyond_eq_nil hr hbeyond, hdot] at hspot
    exact testBit_follows (hframe K hK) hclasses hi hn hspot ha
  case follows_kernel =>
    rintro K i n r a hK ⟨_, hi⟩ hx hn hbeyond hdot hr ha
    obtain ⟨r', hr', _, hspot⟩ := exists_spot hx
    obtain rfl := Option.some.inj (hr.symm.trans hr')
    rw [beyond_eq_nil hr hbeyond, Bool.eq_false_iff.mpr fun he => hdot (Nat.eq_of_beq_eq_true he)] at hspot
    exact testBit_follows (hframe K hK) hclasses hi hn hspot ha

theorem settles_of_check :
    (chart G E).Settles G X.spare (fun p a => p = X.loose.1 ∧ a = X.loose.2) (· ∈ X.returns) := by
  obtain ⟨⟨⟨_, hfirst⟩, _⟩, hsingle, hframes⟩ := by
    simpa only [check, Bool.and_eq_true] using h
  have hframe : ∀ K ∈ kernels G, frameOk G E X K = true := List.all_eq_true.mp hframes
  have hends : ∀ K ∈ kernels G, endsOk G E X (close G K) = true := fun K hK =>
    (Bool.and_eq_true_iff.mp (Bool.and_eq_true_iff.mp (hframe K hK)).2).1
  have hreturns : ∀ K ∈ kernels G, returnsOk G E X K = true := fun K hK =>
    (Bool.and_eq_true_iff.mp (Bool.and_eq_true_iff.mp (hframe K hK)).2).2
  constructor
  case reductions =>
    rintro K p q r r' a hK hp hq ⟨_, hi⟩ ⟨_, hi'⟩ hr hr' ha ha'
    exact eq_of_ends (hends K hK) hr hr' hp hq hi hi' ha ha'
  case shifts =>
    rintro K p r a j hK hp hnot hloose ⟨_, hi⟩ hr ha hterminal ⟨hdot, hj⟩ hn
    by_contra hne
    have hall := List.all_eq_true.mp (Bool.and_eq_true_iff.mp (hends K hK)).2 _ (mem_ends hr hp hi)
    rw [Bool.or_eq_true, List.contains_iff_mem] at hall
    have hdisjoint := hall.resolve_left hnot
    have hshift := testBit_shiftable (X := X) hw hfirst hdot hj hne hterminal hn
    refine Bool.false_ne_true ((not_disjoint ?_ hshift).symm.trans hdisjoint)
    dsimp only
    rw [Bool.cond_eq_ite]
    split
    · rename_i he
      exact testBit_without ha fun he' => hloose ⟨Nat.eq_of_beq_eq_true he, he'⟩
    · exact ha
  case single =>
    intro p r hp hr
    have hone := List.all_eq_true.mp hsingle p hp
    rw [Array.getElem?_toList, hr] at hone
    exact Nat.eq_of_beq_eq_true hone
  case shifts_behind =>
    rintro K p r x a j hK hp hreturn ⟨_, hi⟩ hr hright ha hterminal ⟨hdot, hj⟩ hn
    by_contra hne
    have hall := List.all_eq_true.mp (hreturns K hK) p hreturn
    rw [Bool.or_eq_true, not_disjoint_single (i := 8 * p) hi, Array.getElem?_toList, hr] at hall
    have hdisjoint := List.all_eq_true.mp (hall.resolve_left Bool.false_ne_true) x (hright ▸ List.mem_singleton_self x)
    have hshift := testBit_shiftable (X := X) hw hfirst hdot hj hne hterminal hn
    exact Bool.false_ne_true ((not_disjoint ha hshift).symm.trans hdisjoint)

end Check

end BitChart

end Ramify.LR
