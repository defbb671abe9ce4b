import Ramify.Grammar.Notation
import Ramify.Proofs.LR.Derivation

namespace Ramify

def Symbol.Below (terminals nonterminals : Nat) : Symbol → Prop
  | .term t => t < terminals
  | .nonterm n => n < nonterminals

namespace Grammar

structure WellNumbered (g : Grammar) : Prop where
  terminals_pos : 0 < g.terminals.size
  lhs_lt : ∀ p ∈ g.productions, p.lhs < g.nonterminals.size
  rhs_below : ∀ p ∈ g.productions, ∀ s ∈ p.rhs, s.Below g.terminals.size g.nonterminals.size
  index_eq : ∀ (i : Nat) (p : Production), g.productions[i]? = some p → p.index = i
  start : ∃ start first : Production, g.productions[0]? = some start ∧ g.productions[1]? = some first ∧
    start.lhs = 0 ∧ start.rhs = [.nonterm first.lhs] ∧ first.lhs ≠ 0

section Distinct

lemma mem_distinct {names : List String} {n : String} : n ∈ distinct names ↔ n ∈ names := by
  have hfold : ∀ (names seen : List String),
      n ∈ names.foldl (fun seen n => if seen.contains n then seen else n :: seen) seen ↔
        n ∈ names ∨ n ∈ seen := by
    intro names
    induction names with
    | nil => simp
    | cons m names ih =>
      intro seen
      rw [List.foldl_cons, ih]
      split
      · rename_i hm
        rw [List.contains_iff_mem] at hm
        grind
      · grind
  rw [distinct, List.mem_reverse, hfold]
  simp

lemma idxOf_distinct_lt {names : List String} {n : String} (h : n ∈ names) :
    (distinct names).idxOf n < (distinct names).length :=
  List.idxOf_lt_length_of_mem (mem_distinct.mpr h)

lemma getElem?_distinct_zero (n : String) (names : List String) : (distinct (n :: names))[0]? = some n := by
  have hfold : ∀ (names seen : List String), seen ≠ [] →
      (names.foldl (fun seen n => if seen.contains n then seen else n :: seen) seen).getLast? =
        seen.getLast? := by
    intro names
    induction names with
    | nil => exact fun _ _ => rfl
    | cons m names ih =>
      intro seen hne
      rw [List.foldl_cons]
      split
      · exact ih seen hne
      · rw [ih _ (List.cons_ne_nil m seen), List.getLast?_cons_of_ne_nil hne]
  rw [distinct, ← List.head?_eq_getElem?, List.head?_reverse]
  exact hfold names [n] (List.cons_ne_nil n [])

lemma idxOf_distinct_ne_zero {n m : String} {names : List String} (hm : m ∈ names) (hne : m ≠ n) :
    (distinct (n :: names)).idxOf m ≠ 0 := by
  intro h0
  have hlt := idxOf_distinct_lt (List.mem_cons_of_mem n hm)
  have hget := List.getElem_idxOf hlt
  have hzero := getElem?_distinct_zero n names
  rw [← h0, List.getElem?_eq_getElem hlt, hget] at hzero
  exact hne (Option.some.inj hzero)

end Distinct

section Checks

variable {ε α β : Type}

lemma ok_of_bind {x : Except ε α} {f : α → Except ε β} {b : β} (h : x >>= f = .ok b) :
    ∃ a, x = .ok a ∧ f a = .ok b := by
  cases x with
  | error e => cases h
  | ok a => exact ⟨a, rfl, h⟩

lemma bind_eq_error {x : Except ε α} {f : α → Except ε β} {e : ε} :
    x >>= f = .error e ↔ x = .error e ∨ ∃ a, x = .ok a ∧ f a = .error e := by
  cases x <;> simp [bind, Except.bind]

lemma map_eq_ok {x : Except ε α} {f : α → β} {b : β} (h : x.map f = .ok b) : ∃ a, x = .ok a ∧ f a = b := by
  cases x with
  | error e => cases h
  | ok a => exact ⟨a, rfl, Except.ok.inj h⟩

lemma ok_of_check {c : Prop} [Decidable c] {e : ε} {f : α → Except ε β} {rest : Except ε β} {b : β}
    (h : (if c then throw e >>= f else rest) = .ok b) : ¬ c ∧ rest = .ok b := by
  split at h
  · cases h
  · exact ⟨by assumption, h⟩

lemma check_eq_error {c : Prop} [Decidable c] {e e' : ε} {f : α → Except ε β} {rest : Except ε β} :
    (if c then throw e >>= f else rest) = .error e' ↔ c ∧ e = e' ∨ ¬ c ∧ rest = .error e' := by
  split <;> simp_all [throw, throwThe, MonadExceptOf.throw, bind, Except.bind]

end Checks

lemma labelled_rules {earlier rules : List Rule} {labels : List String}
    {checked : List (Rule × Nat × String)} (h : labelled earlier labels rules = .ok checked) :
    checked.map Prod.fst = rules := by
  induction rules generalizing earlier labels checked with
  | nil =>
    cases h
    rfl
  | cons r rules ih =>
    rw [labelled] at h
    obtain ⟨_, h⟩ := ok_of_check h
    obtain ⟨_, h⟩ := ok_of_check h
    obtain ⟨_, h⟩ := ok_of_check h
    obtain ⟨rest, hrest, h⟩ := ok_of_bind h
    cases h
    rw [List.map_cons, ih hrest]

def productionOf (terminals nonterminals : List String) (i : Nat) (c : Rule × Nat × String) : Production :=
  { index := i + 1, label := c.2.2, lhs := nonterminals.idxOf c.1.left, ordinal := c.2.1,
    rhs := c.1.right.map (numbered terminals nonterminals) }

lemma ofRules_eq {rules : List Rule} {g : Grammar} (h : ofRules rules = .ok g) :
    ∃ first rest, ∃ checked : List (Rule × Nat × String), rules = first :: rest ∧
      first.left ≠ startName ∧ labelled [] [startLabel] rules = .ok checked ∧
      let terminals := distinct (rules.flatMap Rule.terminals ++ [endName])
      let nonterminals := distinct (startName :: rules.flatMap Rule.nonterminals)
      g.terminals = terminals.toArray ∧ g.nonterminals = nonterminals.toArray ∧
      g.productions = (⟨0, startLabel, 0, 1, [.nonterm (nonterminals.idxOf first.left)]⟩ ::
        checked.zipIdx.map fun (c, i) => productionOf terminals nonterminals i c).toArray := by
  cases rules with
  | nil => cases h
  | cons first rest =>
    rw [ofRules] at h
    obtain ⟨hleft, h⟩ := ok_of_check h
    obtain ⟨checked, hchecked, h⟩ := ok_of_bind h
    obtain ⟨_, h⟩ := ok_of_check h
    obtain rfl := Except.ok.inj h
    refine ⟨first, rest, checked, rfl, hleft, hchecked, rfl, rfl, ?_⟩
    refine congrArg (fun l => (_ :: l).toArray) (List.map_congr_left fun c _ => ?_)
    obtain ⟨⟨r, ordinal, label⟩, i⟩ := c
    rfl

lemma numbered_below {rules : List Rule} {r : Rule} (hr : r ∈ rules) {s : NamedSymbol} (hs : s ∈ r.right) :
    (numbered (distinct (rules.flatMap Rule.terminals ++ [endName]))
      (distinct (startName :: rules.flatMap Rule.nonterminals)) s).Below
        (distinct (rules.flatMap Rule.terminals ++ [endName])).length
        (distinct (startName :: rules.flatMap Rule.nonterminals)).length := by
  cases s with
  | term t =>
    refine idxOf_distinct_lt (List.mem_append_left _ (List.mem_flatMap.mpr ⟨r, hr, ?_⟩))
    exact List.mem_filterMap.mpr ⟨_, hs, rfl⟩
  | nonterm n =>
    refine idxOf_distinct_lt (List.mem_cons_of_mem _ (List.mem_flatMap.mpr ⟨r, hr, ?_⟩))
    exact List.mem_cons_of_mem _ (List.mem_filterMap.mpr ⟨_, hs, rfl⟩)

lemma left_lt {rules : List Rule} {r : Rule} (hr : r ∈ rules) :
    (distinct (startName :: rules.flatMap Rule.nonterminals)).idxOf r.left <
      (distinct (startName :: rules.flatMap Rule.nonterminals)).length :=
  idxOf_distinct_lt (List.mem_cons_of_mem _ (List.mem_flatMap.mpr ⟨r, hr, List.mem_cons_self⟩))

lemma ofRules_wellNumbered {rules : List Rule} {g : Grammar} (h : ofRules rules = .ok g) : g.WellNumbered := by
  obtain ⟨first, rest, checked, hrules, hleft, hlabelled, ht, hn, hp⟩ := ofRules_eq h
  have hchecked := labelled_rules hlabelled
  have hfirst : first ∈ rules := hrules ▸ List.mem_cons_self
  have hrule : ∀ c ∈ checked, c.1 ∈ rules := fun c hc => hchecked ▸ List.mem_map_of_mem hc
  have hmem : ∀ p ∈ g.productions, p.lhs < g.nonterminals.size ∧
      ∀ s ∈ p.rhs, s.Below g.terminals.size g.nonterminals.size := by
    intro p hmem
    rw [ht, hn, List.size_toArray, List.size_toArray]
    rw [hp, List.mem_toArray, List.mem_cons, List.mem_map] at hmem
    rcases hmem with rfl | ⟨⟨c, i⟩, hc, rfl⟩
    · refine ⟨List.length_pos_of_mem (mem_distinct.mpr List.mem_cons_self), fun s hs => ?_⟩
      obtain rfl := List.mem_singleton.mp hs
      exact left_lt hfirst
    · have hc := hrule c (List.fst_mem_of_mem_zipIdx hc)
      refine ⟨left_lt hc, fun s hs => ?_⟩
      obtain ⟨named, hnamed, rfl⟩ := List.mem_map.mp hs
      exact numbered_below hc hnamed
  refine ⟨?_, fun p hm => (hmem p hm).1, fun p hm => (hmem p hm).2, fun i p hi => ?_, ?_⟩
  · rw [ht, List.size_toArray]
    exact List.length_pos_of_mem (mem_distinct.mpr (List.mem_append_right _ (List.mem_singleton_self _)))
  · rw [hp, List.getElem?_toArray] at hi
    cases i with
    | zero => exact (Option.some.inj hi) ▸ rfl
    | succ i =>
      rw [List.getElem?_cons_succ, List.getElem?_map, List.getElem?_zipIdx, Option.map_map] at hi
      obtain ⟨c, _, rfl⟩ := Option.map_eq_some_iff.mp hi
      exact congrArg (· + 1) (Nat.zero_add i)
  · obtain ⟨c, cs, rfl⟩ : ∃ c cs, checked = c :: cs := by
      rw [hrules] at hchecked
      exact List.exists_cons_of_ne_nil fun he => by simp [he] at hchecked
    have hc : c.1 = first := (List.cons.inj (hchecked.trans hrules)).1
    rw [hp]
    refine ⟨_, _, rfl, rfl, rfl, by rw [← hc]; rfl, ?_⟩
    have hmem : first.left ∈ rules.flatMap Rule.nonterminals :=
      List.mem_flatMap.mpr ⟨first, hfirst, List.mem_cons_self⟩
    rw [← hc] at hmem hleft
    exact idxOf_distinct_ne_zero hmem hleft

end Grammar

namespace LR

open Grammar

lemma NumberedGrammar.ofGrammar_wellFormed {g : Grammar} (h : g.WellNumbered) :
    (NumberedGrammar.ofGrammar g).WellFormed := by
  have hpos := h.terminals_pos
  have hmem : ∀ r ∈ (NumberedGrammar.ofGrammar g).rules, ∃ p ∈ g.productions,
      r = ⟨p.lhs, p.rhs.map (symbolNumber g.nonterminals.size)⟩ := by
    intro r hr
    obtain ⟨p, hp, rfl⟩ := Array.mem_map.mp hr
    exact ⟨p, hp, rfl⟩
  refine ⟨?_, fun r hr => ?_, fun r hr s hs => ?_, ?_⟩
  · obtain ⟨start, _, hs, _⟩ := h.start
    rw [ofGrammar, Array.size_map]
    exact (Array.getElem?_eq_some_iff.mp hs).1
  · obtain ⟨p, hp, rfl⟩ := hmem r hr
    exact h.lhs_lt p hp
  · obtain ⟨p, hp, rfl⟩ := hmem r hr
    obtain ⟨x, hx, rfl⟩ := List.mem_map.mp hs
    have hb := h.rhs_below p hp x hx
    cases x with
    | term t => exact Nat.add_lt_add_left hb _
    | nonterm n => exact Nat.lt_add_right _ hb
  · exact Nat.lt_add_of_pos_right hpos

end LR

def Symbol.InRange (n : Nat) (s : Symbol) : Prop := ∀ i, s = .nonterm i → i < n

namespace Grammar

variable {g : Grammar}

def number (g : Grammar) : Symbol → Nat := LR.NumberedGrammar.symbolNumber g.nonterminals.size

lemma number_inj {s s' : Symbol} (hs : s.InRange g.nonterminals.size) (hs' : s'.InRange g.nonterminals.size)
    (he : g.number s = g.number s') : s = s' := by
  simp only [number] at he
  cases s with
  | term t =>
    cases s' with
    | term t' => exact congrArg Symbol.term (Nat.add_left_cancel he)
    | nonterm i =>
      have hi := hs' i rfl
      simp only [LR.NumberedGrammar.symbolNumber] at he
      omega
  | nonterm i =>
    cases s' with
    | term t' =>
      have hi := hs i rfl
      simp only [LR.NumberedGrammar.symbolNumber] at he
      omega
    | nonterm i' => exact congrArg Symbol.nonterm he

lemma map_number_inj {ss ss' : List Symbol} (hs : ∀ s ∈ ss, s.InRange g.nonterminals.size)
    (hs' : ∀ s ∈ ss', s.InRange g.nonterminals.size) (he : ss.map g.number = ss'.map g.number) : ss = ss' := by
  induction ss generalizing ss' with
  | nil => exact (List.map_eq_nil_iff.mp he.symm).symm
  | cons s ss ih =>
    obtain ⟨s', rest, rfl, hhead, htail⟩ := List.map_eq_cons_iff.mp he.symm
    rw [number_inj (hs s (by simp)) (hs' s' (by simp)) hhead.symm,
      ih (fun s hs₁ => hs s (by simp [hs₁])) (fun s hs₁ => hs' s (by simp [hs₁])) htail.symm]

lemma WellNumbered.rhs_inRange (h : g.WellNumbered) {p : Production} (hp : p ∈ g.productions) :
    ∀ s ∈ p.rhs, s.InRange g.nonterminals.size := by
  rintro s hs i rfl
  exact h.rhs_below p hp _ hs

lemma rules_getElem? {index : Nat} {production : Production} (h : g.productions[index]? = some production) :
    (LR.NumberedGrammar.ofGrammar g).rules[index]? =
      some ⟨production.lhs, production.rhs.map g.number⟩ := by
  change (g.productions.map _)[index]? = _
  rw [Array.getElem?_map, h]
  rfl

lemma exists_production {index : Nat} {rule : LR.NumberedRule}
    (h : (LR.NumberedGrammar.ofGrammar g).rules[index]? = some rule) : ∃ production : Production,
      g.productions[index]? = some production ∧ rule = ⟨production.lhs, production.rhs.map g.number⟩ := by
  change (g.productions.map _)[index]? = _ at h
  rw [Array.getElem?_map] at h
  obtain ⟨production, hproduction, he⟩ := Option.map_eq_some_iff.mp h
  exact ⟨production, hproduction, he.symm⟩

end Grammar

end Ramify
