import Ramify.Proofs.LR.CanonicalSets

namespace Ramify.LR.NumberedGrammar

inductive Stack (G : NumberedGrammar) : List Nat → List Nat → Prop
  | bottom : Stack G [0] []
  | push {s t x : Nat} {states symbols : List Nat} : Stack G (s :: states) symbols →
      G.collection.goto? s x = some t → Stack G (t :: s :: states) (x :: symbols)

variable {G : NumberedGrammar} {states symbols : List Nat} {s : Nat}

lemma Stack.length_eq (h : G.Stack states symbols) : states.length = symbols.length + 1 := by
  induction h with
  | bottom => rfl
  | push _ _ ih => rw [List.length_cons, ih, List.length_cons]

lemma Stack.lt_size (hw : G.WellFormed) (h : G.Stack (s :: states) symbols) : s < G.collection.size := by
  cases h with
  | bottom => exact (kernel_zero hw).1
  | push _ hg => exact (goto?_kernel hw hg).1

lemma Stack.drop (h : G.Stack states symbols) {n : Nat} (hn : n ≤ symbols.length) :
    G.Stack (states.drop n) (symbols.drop n) := by
  induction n generalizing states symbols with
  | zero => exact h
  | succ n ih =>
    cases h with
    | bottom => simp at hn
    | push h _ => exact ih h (Nat.le_of_succ_le_succ hn)

lemma Stack.viable (hw : G.WellFormed) (h : G.Stack (s :: states) symbols) {r d : Nat}
    (hi : ⟨r, d⟩ ∈ G.closure (G.collection.kernel s)) :
    d ≤ symbols.length ∧ (symbols.take d).reverse = (G.right r).take d ∧
      ∃ s', (s :: states)[d]? = some s' ∧ ⟨r, 0⟩ ∈ G.closure (G.collection.kernel s') := by
  induction d generalizing s states symbols with
  | zero => exact ⟨Nat.zero_le _, rfl, s, rfl, hi⟩
  | succ d ih =>
    -- With something before its mark the item is of the kernel, so it was moved here from below.
    have hk : ⟨r, d + 1⟩ ∈ G.collection.kernel s := ((mem_closure hw).mp hi).mem_of_dot (Nat.succ_ne_zero d)
    cases h with
    | bottom =>
      rw [(kernel_zero hw).2, List.mem_singleton] at hk
      cases hk
    | push h hg =>
      rename_i s' x states symbols
      rw [(goto?_kernel hw hg).2] at hk
      obtain ⟨⟨r', d'⟩, hj, hn, he⟩ := mem_movedOver.mp hk
      obtain ⟨hr, hd⟩ := Item.mk.inj he
      obtain rfl : r' = r := hr
      obtain rfl : d' = d := Nat.succ.inj hd
      obtain ⟨hle, htake, hbelow⟩ := ih h hj
      refine ⟨Nat.succ_le_succ hle, ?_, hbelow⟩
      have hn' : (G.right r')[d']? = some x := hn
      rw [List.take_succ_cons, List.reverse_cons, htake, List.take_add_one, hn']
      rfl

lemma Stack.suffix (hw : G.WellFormed) (h : G.Stack (s :: states) symbols) {r d : Nat}
    (hi : ⟨r, d⟩ ∈ G.closure (G.collection.kernel s)) : (G.right r).take d <:+ symbols.reverse := by
  obtain ⟨_, htake, _⟩ := h.viable hw hi
  rw [← htake, List.reverse_suffix]
  exact List.take_prefix d symbols

lemma exists_stack (hw : G.WellFormed) (hs : s < G.collection.size) :
    ∃ states symbols, G.Stack (s :: states) symbols := by
  obtain ⟨word, hword⟩ := exists_follow hw hs
  induction word using List.reverseRecOn generalizing s with
  | nil =>
    obtain rfl : 0 = s := Option.some.inj hword
    exact ⟨[], [], .bottom⟩
  | append_singleton word x ih =>
    rw [Collection.follow_concat] at hword
    obtain ⟨s', hs', hgoto⟩ := Option.bind_eq_some_iff.mp hword
    obtain ⟨states, symbols, hstack⟩ := ih (goto?_lt hw hgoto) hs'
    exact ⟨s' :: states, x :: symbols, .push hstack hgoto⟩

lemma exists_rule_at {i : Item} {x : Nat} (h : i.next? G = some x) :
    ∃ rule, G.rules[i.rule]? = some rule ∧ rule.right[i.dot]? = some x := by
  obtain ⟨rule, hrule⟩ : ∃ rule, G.rules[i.rule]? = some rule := by
    refine Option.ne_none_iff_exists'.mp fun hnone => ?_
    rw [Item.next?, right, hnone] at h
    cases h
  rw [Item.next?, NumberedGrammar.right_eq hrule] at h
  exact ⟨rule, hrule, h⟩

lemma left_of_initial (hw : G.WellFormed) {s' x : Nat} (hgoto : G.collection.goto? s' x = some s) (Good : Nat → Prop)
    (hafter : ∀ rule ∈ G.rules, ∀ d n, rule.right[d]? = some x → rule.right[d + 1]? = some n → Good n)
    (hhead : ∀ rule ∈ G.rules, Good rule.left → ∀ n, rule.right[0]? = some n → Good n) {r : Nat}
    (hi : ⟨r, 0⟩ ∈ G.closure (G.collection.kernel s)) {rule : NumberedRule} (hr : G.rules[r]? = some rule) :
    Good rule.left := by
  have hkernel : ∀ i ∈ G.collection.kernel s, i.dot ≠ 0 ∧ ∀ n, i.next? G = some n → Good n := by
    intro i hi
    rw [(goto?_kernel hw hgoto).2] at hi
    obtain ⟨j, _, hx, rfl⟩ := mem_movedOver.mp hi
    obtain ⟨rule, hrule, hx⟩ := exists_rule_at hx
    refine ⟨Nat.succ_ne_zero _, fun n hn => ?_⟩
    obtain ⟨rule', hrule', hn⟩ := exists_rule_at hn
    obtain rfl := Option.some.inj (hrule.symm.trans hrule')
    exact hafter rule (Array.mem_of_getElem? hrule) _ n hx hn
  have hall : ∀ i, G.Closure {i | i ∈ G.collection.kernel s} i → ∀ n, i.next? G = some n → Good n := by
    intro i hi
    induction hi with
    | base hi => exact (hkernel _ hi).2
    | initial _ hrule hn ih =>
      intro n hn'
      obtain ⟨rule', hrule', hn'⟩ := exists_rule_at hn'
      obtain rfl := Option.some.inj (hrule.symm.trans hrule')
      exact hhead _ (Array.mem_of_getElem? hrule) (ih _ hn) n hn'
  cases (mem_closure hw).mp hi with
  | base hi => exact absurd rfl (hkernel _ hi).1
  | initial hj hrule hn =>
    obtain rfl := Option.some.inj (hr.symm.trans hrule)
    exact hall _ hj _ hn

lemma drop_of_next? {i : Item} {x : Nat} (h : i.next? G = some x) :
    (G.right i.rule).drop i.dot = x :: i.beyond G := by
  obtain ⟨hlt, hget⟩ := List.getElem?_eq_some_iff.mp h
  rw [List.drop_eq_getElem_cons hlt, hget]
  rfl

lemma Closure.exists_derivation {g : List Nat} {I : Set Item} {i : Item} (h : G.Closure I i)
    (hI : ∀ j ∈ I, ∃ after, G.Derives (G.right 0) (g ++ (G.right j.rule).drop j.dot ++ after)) :
    ∃ after, G.Derives (G.right 0) (g ++ (G.right i.rule).drop i.dot ++ after) := by
  induction h with
  | base hi => exact hI _ hi
  | @initial i n r _ hr hn ih =>
    obtain ⟨after, hd⟩ := ih
    rw [drop_of_next? hn] at hd
    refine ⟨i.beyond G ++ after, hd.trans ?_⟩
    have hrule := (Derives.of_rule (Array.mem_of_getElem? hr)).in_context g (i.beyond G ++ after)
    simpa [right_eq hr] using hrule

lemma Stack.exists_derivation (hw : G.WellFormed) (h : G.Stack (s :: states) symbols) {i : Item}
    (hi : i ∈ G.closure (G.collection.kernel s)) :
    ∃ after, G.Derives (G.right 0) (symbols.reverse ++ (G.right i.rule).drop i.dot ++ after) := by
  induction symbols generalizing s states i with
  | nil =>
    cases h with
    | bottom =>
      refine ((mem_closure hw).mp hi).exists_derivation fun j hj => ?_
      obtain rfl : j = ⟨0, 0⟩ := by
        rw [(kernel_zero hw).2] at hj
        exact List.mem_singleton.mp hj
      exact ⟨[], by simpa using Derives.refl _⟩
  | cons x symbols ih =>
    cases h with
    | push h hg =>
      refine ((mem_closure hw).mp hi).exists_derivation fun j hj => ?_
      rw [(goto?_kernel hw hg).2] at hj
      obtain ⟨i', hi', hn, rfl⟩ := mem_movedOver.mp hj
      obtain ⟨after, hd⟩ := ih h hi'
      rw [drop_of_next? hn] at hd
      exact ⟨after, by simpa [Item.advance, Item.beyond] using hd⟩

lemma Stack.exists_item (hw : G.WellFormed) (h : G.Stack (s :: states) symbols) :
    ∃ i, i ∈ G.closure (G.collection.kernel s) := by
  cases h with
  | bottom => exact ⟨⟨0, 0⟩, (mem_closure hw).mpr (.base (by simp [(kernel_zero hw).2]))⟩
  | push h hg =>
    obtain ⟨i, hi, hn⟩ := exists_item_of_goto? hw hg
    refine ⟨i.advance, (mem_closure hw).mpr (.base ?_)⟩
    change i.advance ∈ G.collection.kernel s
    rw [(goto?_kernel hw hg).2]
    exact mem_movedOver.mpr ⟨i, hi, hn, rfl⟩

lemma Stack.eq_bottom (hw : G.WellFormed) (h : G.Stack (s :: states) symbols) {r : Nat}
    (hk : ⟨r, 0⟩ ∈ G.collection.kernel s) : r = 0 ∧ states = [] ∧ symbols = [] := by
  cases h with
  | bottom =>
    rw [(kernel_zero hw).2, List.mem_singleton] at hk
    exact ⟨(Item.mk.inj hk).1, rfl, rfl⟩
  | push h hg =>
    rw [(goto?_kernel hw hg).2] at hk
    obtain ⟨j, _, _, he⟩ := mem_movedOver.mp hk
    exact absurd (congrArg Item.dot he) (Nat.succ_ne_zero _)

lemma looks_mem_closure (hw : G.WellFormed) {i : Item} {a : Nat} (h : G.Looks (Analysis.kernelSet G s) i a) :
    i ∈ G.closure (G.collection.kernel s) := by
  rw [mem_closure hw, ← Analysis.kernelSet_items hw]
  exact h.closure (Analysis.kernelSet_looks_items s)

lemma looks_lt (hw : G.WellFormed) {i : Item} {a : Nat} (h : G.Looks (Analysis.kernelSet G s) i a) :
    a < G.symbolCount := by
  induction h with
  | @base i a hi =>
    by_contra hge
    have hb := (Analysis.mem_kernelSet_looks hw).mp hi
    have hget := (Analysis.sized_kernelLookaheads hw).2.get ⟨s, i⟩
    rw [Nat.testBit_lt_two_pow (hget.trans_le (Nat.pow_le_pow_right (by omega) (Nat.not_lt.mp hge)))] at hb
    cases hb
  | generated _ _ _ hb => exact hb.lt hw.inRange (beyond_lt hw.inRange _)
  | passed _ _ _ _ ih => exact ih

lemma Stack.reduce (hw : G.WellFormed) (h : G.Stack (s :: states) symbols) {r a : Nat} (hr : r ≠ 0)
    (hl : G.Looks (Analysis.kernelSet G s) ⟨r, (G.right r).length⟩ a) :
    (G.right r).length ≤ symbols.length ∧ (symbols.take (G.right r).length).reverse = G.right r ∧
      ∃ s' rule t, (s :: states)[(G.right r).length]? = some s' ∧ G.rules[r]? = some rule ∧
        G.collection.goto? s' rule.left = some t := by
  obtain ⟨hle, htake, s', hs', hinit⟩ := h.viable hw (looks_mem_closure hw hl)
  rw [List.take_length] at htake
  refine ⟨hle, htake, s', ?_⟩
  have hdrop := h.drop hle
  obtain ⟨hlt, hget⟩ := List.getElem?_eq_some_iff.mp hs'
  rw [List.drop_eq_getElem_cons hlt, hget] at hdrop
  cases (mem_closure hw).mp hinit with
  | base hk => exact absurd (hdrop.eq_bottom hw hk).1 hr
  | initial hj hrule hn =>
    obtain ⟨t, ht⟩ := goto?_isSome hw (hdrop.lt_size hw) ((mem_closure hw).mpr hj) hn
    exact ⟨_, t, hs', hrule, ht⟩

lemma Stack.accept (hw : G.WellFormed) (h : G.Stack (s :: states) symbols) {a : Nat} {rule : NumberedRule}
    (hrule : G.rules[0]? = some rule) (hstart : ∀ r ∈ G.rules, rule.left ∉ r.right)
    (hl : G.Looks (Analysis.kernelSet G s) ⟨0, (G.right 0).length⟩ a) : symbols.reverse = G.right 0 := by
  obtain ⟨hle, htake, s', hs', hinit⟩ := h.viable hw (looks_mem_closure hw hl)
  rw [List.take_length] at htake
  have hdrop := h.drop hle
  obtain ⟨hlt, hget⟩ := List.getElem?_eq_some_iff.mp hs'
  rw [List.drop_eq_getElem_cons hlt, hget] at hdrop
  cases (mem_closure hw).mp hinit with
  | base hk =>
    have hnil := (hdrop.eq_bottom hw hk).2.2
    rwa [List.take_of_length_le (List.drop_eq_nil_iff.mp hnil)] at htake
  | initial _ hrule' hn =>
    obtain rfl := Option.some.inj (hrule.symm.trans hrule')
    obtain ⟨r, hr, hx⟩ := exists_rule_at hn
    exact absurd (List.mem_of_getElem? hx) (hstart r (Array.mem_of_getElem? hr))

end Ramify.LR.NumberedGrammar
