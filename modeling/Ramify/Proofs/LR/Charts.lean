import Ramify.Proofs.LR.Cells
import Ramify.Proofs.LR.ViablePrefix

/-! Charts. A chart has a frame for every string of symbols that a stack can hold, with at least the items of
the canonical set, and with at least the terminals that follow a nonterminal which begins there. What
lies on the right of a rule is never empty, so that all lookaheads come from the symbol behind the
nonterminal or from the rule that it ends. A conflict that the chart rules out is in no cell. -/

namespace Ramify.LR

structure Chart (φ : Type) where
  known : φ → Prop
  start : φ
  next : φ → Nat → φ
  items : φ → Set Item
  heads : Nat → Nat → Prop
  follows : φ → Nat → Nat → Prop
  anywhere : Nat → Nat → Prop

namespace Chart

variable {φ : Type} (C : Chart φ) (G : NumberedGrammar)

def frame (g : List Nat) : φ := g.foldl C.next C.start

structure Covers : Prop where
  right_ne_nil : ∀ r ∈ G.rules, r.right ≠ []
  heads_terminal : ∀ a, G.nonterminals ≤ a → C.heads a a
  heads_left : ∀ r ∈ G.rules, ∀ x a, r.right.head? = some x → C.heads x a → C.heads r.left a
  start_known : C.known C.start
  start_mem : ⟨0, 0⟩ ∈ C.items C.start
  start_follows : ∀ r, G.rules[0]? = some r → C.follows C.start r.left G.endSymbol
  anywhere_of_follows : ∀ K n a, C.known K → C.follows K n a → C.anywhere n a
  initial_mem : ∀ K i n r, C.known K → i ∈ C.items K → G.rules[n]? = some r → i.next? G = some r.left →
    ⟨n, 0⟩ ∈ C.items K
  known_next : ∀ K i x, C.known K → i ∈ C.items K → i.next? G = some x → C.known (C.next K x)
  advance_mem : ∀ K i x, C.known K → i ∈ C.items K → i.next? G = some x → i.advance ∈ C.items (C.next K x)
  follows_head : ∀ K i n y rest a, C.known K → i ∈ C.items K → i.next? G = some n → n < G.nonterminals →
    i.beyond G = y :: rest → C.heads y a → C.follows K n a
  follows_initial : ∀ K i n r a, C.known K → i ∈ C.items K → i.next? G = some n → n < G.nonterminals →
    i.beyond G = [] → i.dot = 0 → G.rules[i.rule]? = some r → C.follows K r.left a → C.follows K n a
  follows_kernel : ∀ K i n r a, C.known K → i ∈ C.items K → i.next? G = some n → n < G.nonterminals →
    i.beyond G = [] → i.dot ≠ 0 → G.rules[i.rule]? = some r → C.anywhere r.left a → C.follows K n a

variable {C G}

namespace Covers

variable (hC : C.Covers G)

include hC

lemma heads_of_begins {x a : Nat} {rest : List Nat} (h : G.Begins (x :: rest) a) : C.heads x a := by
  obtain ⟨ha, tail, hd⟩ := h
  have hback : ∀ y, (x :: rest).head? = some y → C.heads y a := by
    refine hd.backward (P := fun u => ∀ y, u.head? = some y → C.heads y a) ?_ ?_
    · rintro _ _ ⟨u, v, hr⟩ hv y hy
      cases u with
      | nil =>
        obtain rfl := Option.some.inj hy
        obtain ⟨z, zs, hright⟩ := List.exists_cons_of_ne_nil (hC.right_ne_nil _ hr)
        refine hC.heads_left _ hr z a (hright ▸ rfl) (hv z ?_)
        rw [hright]
        rfl
      | cons z u => exact hv y hy
    · rintro y hy
      obtain rfl := Option.some.inj hy
      exact hC.heads_terminal a ha
  exact hback x rfl

lemma eq_nil_of_derives {u : List Nat} (h : G.Derives u []) : u = [] := by
  refine h.backward (P := fun u => u = []) ?_ rfl
  rintro _ _ ⟨u, v, hr⟩ hnil
  obtain ⟨_, hnil⟩ := List.append_eq_nil_iff.mp hnil
  exact absurd (List.append_eq_nil_iff.mp hnil).1 (hC.right_ne_nil _ hr)

end Covers

structure Bounds (C : Chart φ) (G : NumberedGrammar) (I : ItemSet) (K : φ) : Prop where
  known : ∀ i ∈ I.items, C.known K
  mem : ∀ i ∈ I.items, i ∈ C.items K
  looks_mem : ∀ p ∈ I.looks, p.1 ∈ I.items
  anywhere : ∀ p ∈ I.looks, ∀ r, G.rules[p.1.rule]? = some r → C.anywhere r.left p.2
  follows : ∀ p ∈ I.looks, p.1.dot = 0 → ∀ r, G.rules[p.1.rule]? = some r → C.follows K r.left p.2

namespace Covers

variable {I : ItemSet} {K : φ} (hC : C.Covers G)

include hC

lemma closure_bounds (h : C.Bounds G I K) {i : Item} (hi : G.Closure I.items i) : C.known K ∧ i ∈ C.items K := by
  induction hi with
  | base hi => exact ⟨h.known _ hi, h.mem _ hi⟩
  | initial _ hr hn ih => exact ⟨ih.1, hC.initial_mem _ _ _ _ ih.1 ih.2 hr hn⟩

omit hC in
lemma not_begins_nil {a : Nat} : ¬ G.Begins [] a := by
  rintro ⟨_, rest, hd⟩
  refine hd.backward (P := fun u => u ≠ []) ?_ (List.cons_ne_nil a rest) rfl
  rintro _ _ ⟨u, v, _⟩ _
  exact List.append_ne_nil_of_right_ne_nil u (List.cons_ne_nil _ v)

lemma looks_bounds (hw : G.WellFormed) (h : C.Bounds G I K) {i : Item} {a : Nat} (hi : G.Looks I i a) :
    G.Closure I.items i ∧ ∀ r, G.rules[i.rule]? = some r →
      C.anywhere r.left a ∧ (i.dot = 0 → C.follows K r.left a) := by
  have hlt : ∀ {n : Nat} {r : NumberedRule}, G.rules[n]? = some r → r.left < G.nonterminals :=
    fun hr => hw.left_lt _ (Array.mem_of_getElem? hr)
  have hinitial : ∀ {i : Item} {n a : Nat} {r : NumberedRule}, G.Closure I.items i → G.rules[n]? = some r →
      i.next? G = some r.left → C.follows K r.left a → G.Closure I.items ⟨n, 0⟩ ∧ ∀ r', G.rules[n]? = some r' →
        C.anywhere r'.left a ∧ ((0 : Nat) = 0 → C.follows K r'.left a) := by
    intro i n a r hi hr hn hf
    refine ⟨.initial hi hr hn, fun r' hr' => ?_⟩
    obtain rfl := Option.some.inj (hr.symm.trans hr')
    exact ⟨hC.anywhere_of_follows _ _ _ (hC.closure_bounds h hi).1 hf, fun _ => hf⟩
  induction hi with
  | base hi => exact ⟨.base (h.looks_mem _ hi), fun r hr => ⟨h.anywhere _ hi r hr, fun hd => h.follows _ hi hd r hr⟩⟩
  | @generated i n r a hi hr hn hb =>
    obtain ⟨hknown, hmem⟩ := hC.closure_bounds h hi
    refine hinitial hi hr hn ?_
    cases hbeyond : i.beyond G with
    | nil => exact absurd (hbeyond ▸ hb) not_begins_nil
    | cons y rest => exact hC.follows_head _ _ _ _ _ _ hknown hmem hn (hlt hr) hbeyond (hC.heads_of_begins (hbeyond ▸ hb))
  | @passed i n r a _ hr hn hd ih =>
    obtain ⟨hknown, hmem⟩ := hC.closure_bounds h ih.1
    refine hinitial ih.1 hr hn ?_
    obtain ⟨rule, hrule, _⟩ := NumberedGrammar.exists_rule_at hn
    obtain ⟨hany, hfollows⟩ := ih.2 rule hrule
    have hbeyond := hC.eq_nil_of_derives hd
    by_cases hdot : i.dot = 0
    · exact hC.follows_initial _ _ _ _ _ hknown hmem hn (hlt hr) hbeyond hdot hrule (hfollows hdot)
    · exact hC.follows_kernel _ _ _ _ _ hknown hmem hn (hlt hr) hbeyond hdot hrule hany

lemma bounds_closure (hw : G.WellFormed) (h : C.Bounds G I K) : C.Bounds G (I.closure G) K where
  known _ hi := (hC.closure_bounds h hi).1
  mem _ hi := (hC.closure_bounds h hi).2
  looks_mem _ hp := (hC.looks_bounds hw h hp).1
  anywhere _ hp r hr := ((hC.looks_bounds hw h hp).2 r hr).1
  follows _ hp hd r hr := ((hC.looks_bounds hw h hp).2 r hr).2 hd

lemma bounds_moved (h : C.Bounds G I K) (x : Nat) : C.Bounds G (I.moved G x) (C.next K x) where
  known := by
    rintro _ ⟨i, hi, hn, rfl⟩
    exact hC.known_next _ _ _ (h.known _ hi) (h.mem _ hi) hn
  mem := by
    rintro _ ⟨i, hi, hn, rfl⟩
    exact hC.advance_mem _ _ _ (h.known _ hi) (h.mem _ hi) hn
  looks_mem := by
    rintro ⟨_, a⟩ ⟨i, hi, hn, rfl⟩
    exact ⟨i, h.looks_mem _ hi, hn, rfl⟩
  anywhere := by
    rintro ⟨_, a⟩ ⟨i, hi, _, rfl⟩ r hr
    exact h.anywhere _ hi r hr
  follows := by
    rintro ⟨_, a⟩ ⟨i, _, _, rfl⟩ hd
    exact absurd hd (Nat.succ_ne_zero _)

lemma bounds_canonical (hw : G.WellFormed) (g : List Nat) : C.Bounds G (G.canonical g) (C.frame g) := by
  induction g using List.reverseRecOn with
  | nil =>
    refine hC.bounds_closure hw ⟨?_, ?_, ?_, ?_, ?_⟩
    · rintro _ rfl
      exact hC.start_known
    · rintro _ rfl
      exact hC.start_mem
    · rintro _ rfl
      rfl
    · rintro _ rfl r hr
      exact hC.anywhere_of_follows _ _ _ hC.start_known (hC.start_follows r hr)
    · rintro _ rfl _ r hr
      exact hC.start_follows r hr
  | append_singleton g x ih =>
    rw [NumberedGrammar.canonical_concat, frame, List.foldl_append]
    exact hC.bounds_closure hw (hC.bounds_moved ih x)

end Covers

variable (C G) in
/-- There is no conflict in a frame but with the rule `spare` and those that are `loose`. The rules that
`return` have one symbol on the right, and what follows them is known where they began. -/
structure Settles (spare : Nat) (loose : Nat → Nat → Prop) (returns : Nat → Prop) : Prop where
  reductions : ∀ K p q r r' a, C.known K → p ≠ spare → q ≠ spare → ⟨p, r.right.length⟩ ∈ C.items K →
    ⟨q, r'.right.length⟩ ∈ C.items K → G.rules[p]? = some r → G.rules[q]? = some r' → C.anywhere r.left a →
    C.anywhere r'.left a → p = q
  shifts : ∀ K p r a j, C.known K → p ≠ spare → ¬ returns p → ¬ loose p a → ⟨p, r.right.length⟩ ∈ C.items K →
    G.rules[p]? = some r → C.anywhere r.left a → G.nonterminals ≤ a → j ∈ C.items K → j.next? G = some a →
    j = ⟨spare, 0⟩
  single : ∀ p r, returns p → G.rules[p]? = some r → r.right.length = 1
  shifts_behind : ∀ K p r x a j, C.known K → p ≠ spare → returns p → ⟨p, 0⟩ ∈ C.items K → G.rules[p]? = some r →
    r.right = [x] → C.follows K r.left a → G.nonterminals ≤ a → j ∈ C.items (C.next K x) → j.next? G = some a →
    j = ⟨spare, 0⟩

section Cells

variable {s p q a : Nat} {r r' : NumberedRule}

lemma exists_below_single {g : List Nat} {x : Nat} (hr : G.rules[p]? = some r) (hright : r.right = [x])
    (h : (⟨p, 1⟩, a) ∈ (G.canonical g).looks) :
    ∃ g', g = g' ++ [x] ∧ (⟨p, 0⟩, a) ∈ (G.canonical g').looks := by
  cases g using List.reverseRec with
  | nil =>
    cases h with
    | base h => cases h
  | append_singleton g y =>
    rw [NumberedGrammar.canonical_concat] at h
    cases h with
    | base h =>
      obtain ⟨⟨p', d⟩, hj, hn, he⟩ := h
      obtain ⟨hp, hd⟩ := Item.mk.inj he
      obtain rfl : p' = p := hp
      obtain rfl : d = 0 := Nat.succ.inj hd
      rw [Item.next?, NumberedGrammar.right_eq hr, hright] at hn
      obtain rfl := Option.some.inj hn
      exact ⟨g, rfl, hj⟩

variable {spare : Nat} {loose : Nat → Nat → Prop} {returns : Nat → Prop} (hw : G.WellFormed) (hC : C.Covers G)
  (hS : C.Settles G spare loose returns)

include hw

lemma exists_frame (hs : s < G.collection.size) {i : Item} (h : G.Looks (Analysis.kernelSet G s) i a) :
    ∃ g, (i, a) ∈ (G.canonical g).looks ∧ ∀ j ∈ G.closure (G.collection.kernel s), j ∈ (G.canonical g).items := by
  obtain ⟨g, hg, hi⟩ := Analysis.canonical_of_looks hw hs h
  refine ⟨g, hi, fun j hj => ?_⟩
  rw [NumberedGrammar.canonical_items hw hg]
  exact (NumberedGrammar.mem_closure hw).mp hj

include hC

lemma anywhere_of_looks (hs : s < G.collection.size) {i : Item} (h : G.Looks (Analysis.kernelSet G s) i a)
    (hr : G.rules[i.rule]? = some r) : C.anywhere r.left a := by
  obtain ⟨g, hi, _⟩ := exists_frame hw hs h
  exact (hC.bounds_canonical hw g).anywhere _ hi r hr

include hS

lemma Settles.reduction_unique (hs : s < G.collection.size) (hp : p ≠ spare) (hq : q ≠ spare)
    (hr : G.rules[p]? = some r) (hr' : G.rules[q]? = some r')
    (h : G.Looks (Analysis.kernelSet G s) ⟨p, r.right.length⟩ a)
    (h' : G.Looks (Analysis.kernelSet G s) ⟨q, r'.right.length⟩ a) : p = q := by
  obtain ⟨g, hi, hall⟩ := exists_frame hw hs h
  have hb := hC.bounds_canonical hw g
  have hmem := hb.looks_mem _ hi
  have hmem' := hall _ (NumberedGrammar.looks_mem_closure hw h')
  exact hS.reductions _ p q r r' a (hb.known _ hmem) hp hq (hb.mem _ hmem) (hb.mem _ hmem') hr hr'
    (hb.anywhere _ hi r hr) (anywhere_of_looks hw hC hs h' hr')

lemma Settles.shift_spare (hs : s < G.collection.size) (hp : p ≠ spare) (hloose : ¬ loose p a)
    (ha : G.nonterminals ≤ a) (hr : G.rules[p]? = some r)
    (h : G.Looks (Analysis.kernelSet G s) ⟨p, r.right.length⟩ a) {j : Item}
    (hj : j ∈ G.closure (G.collection.kernel s)) (hn : j.next? G = some a) : j = ⟨spare, 0⟩ := by
  obtain ⟨g, hi, hall⟩ := exists_frame hw hs h
  have hb := hC.bounds_canonical hw g
  have hmem := hb.looks_mem _ hi
  by_cases hd : returns p
  · obtain ⟨x, hx⟩ := List.length_eq_one_iff.mp (hS.single p r hd hr)
    have hone : r.right.length = 1 := congrArg List.length hx
    rw [hone] at hi
    obtain ⟨g', rfl, hi'⟩ := exists_below_single hr hx hi
    have hb' := hC.bounds_canonical hw g'
    have hmem' := hb'.looks_mem _ hi'
    refine hS.shifts_behind _ p r x a j (hb'.known _ hmem') hp hd (hb'.mem _ hmem') hr hx (hb'.follows _ hi' rfl r hr) ha
      ?_ hn
    have hin := hb.mem j (hall j hj)
    rwa [frame, List.foldl_append] at hin
  · exact hS.shifts _ p r a j (hb.known _ hmem) hp hd hloose (hb.mem _ hmem) hr (hb.anywhere _ hi r hr) ha
      (hb.mem j (hall j hj)) hn

end Cells

end Chart

end Ramify.LR
