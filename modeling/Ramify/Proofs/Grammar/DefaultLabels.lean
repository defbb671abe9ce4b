import Ramify.Proofs.Grammar.RepeatedLabels
import Ramify.Proofs.Grammar.WrittenForm

/-! The labels of rules that bear none. Such a label is the left side, its first letter lowered, with the
ordinal behind it, and nothing shows where the ordinal begins. So two left sides can come to one label: one of
them is the other with a number behind it, and this number begins the ordinal of the other. There is no other
way, and a text without labels is refused for a label exactly at the first rule to which this happens. -/

namespace Ramify.Grammar

section Numerals

lemma exists_toDigits_front {n : ℕ} {front back : List Char} (h : Nat.toDigits 10 n = front ++ back)
    (hfront : front ≠ []) (hback : back ≠ []) : ∃ d, 0 < d ∧ front = Nat.toDigits 10 d := by
  -- The digits come off at the end, one with each division, until only the front is left.
  induction n using Nat.strong_induction_on generalizing back with
  | _ n ih =>
    obtain ⟨init, last, rfl⟩ := (List.eq_nil_or_concat back).resolve_left hback
    rw [Nat.toDigits_eq_if (by decide)] at h
    split at h
    · have hlength := congrArg List.length h
      have hpos := List.length_pos_of_ne_nil hfront
      simp only [List.concat_eq_append, List.length_append, List.length_singleton] at hlength
      omega
    · have hinit : Nat.toDigits 10 (n / 10) = front ++ init := by
        rw [List.concat_eq_append, ← List.append_assoc] at h
        exact List.append_inj_left' h rfl
      cases init with
      | nil => exact ⟨n / 10, by omega, by rw [hinit, List.append_nil]⟩
      | cons c init => exact ih (n / 10) (by omega) hinit (List.cons_ne_nil c init)

lemma toList_toString (n : ℕ) : (toString n).toList = Nat.toDigits 10 n := Nat.toList_repr

end Numerals

def IsNonterminal (name : String) : Prop := Lexeme name.toList (some (.symbol (.nonterm name)))

section Nonterminals

lemma Lexeme.exists_upper {w : List Char} {name : String} (h : Lexeme w (some (.symbol (.nonterm name)))) :
    ∃ c run, c.isUpper = true ∧ w = c :: run ∧ name = String.ofList (c :: run) := by
  cases h with
  | nonterminal hc _ => exact ⟨_, _, hc, rfl, rfl⟩

lemma Lexeme.isNonterminal {w : List Char} {name : String} (h : Lexeme w (some (.symbol (.nonterm name)))) :
    IsNonterminal name := by
  obtain ⟨c, run, _, rfl, rfl⟩ := h.exists_upper
  rwa [IsNonterminal, String.toList_ofList]

lemma Lexes.exists_lexeme {text : List Char} {tokens : List NotationToken} (h : Lexes text tokens) :
    ∀ token ∈ tokens, ∃ w, Lexeme w (some token) := by
  induction h with
  | nil => exact nofun
  | @cons w rest front tokens hlongest _ ih =>
    intro token hmem
    rcases List.mem_append.mp hmem with hmem | hmem
    · obtain rfl := Option.mem_toList.mp hmem
      exact ⟨w, hlongest.lexeme⟩
    · exact ih token hmem

lemma Reads.isNonterminal {n : ℕ} {ls : List (List Char)} {rules : List Rule} (h : Reads n ls rules) :
    ∀ r ∈ rules, IsNonterminal r.left := by
  induction h with
  | nil => exact nofun
  | blank _ _ ih => exact ih
  | @rule _ _ _ r _ hlexes _ _ ih =>
    obtain ⟨w, hw⟩ := hlexes.exists_lexeme (.symbol (.nonterm r.left)) (by simp [Rule.tokens])
    exact List.forall_mem_cons.mpr ⟨hw.isNonterminal, ih⟩

end Nonterminals

/-- The second left side is the first with a number behind it, and the first ordinal is the second with the
same number in front of it. -/
def Overlaps (a b : String × ℕ) : Prop :=
  ∃ d, 0 < d ∧ b.1 = a.1 ++ toString d ∧ toString a.2 = toString d ++ toString b.2

def Clash (a b : String × ℕ) : Prop := Overlaps a b ∨ Overlaps b a

section Clashes

variable {a b : String × ℕ}

lemma Overlaps.append_eq (h : Overlaps a b) : a.1 ++ toString a.2 = b.1 ++ toString b.2 := by
  obtain ⟨d, _, hleft, hordinal⟩ := h
  rw [hleft, hordinal, String.append_assoc]

lemma eq_or_overlaps_of_front {front : List Char} (hleft : b.1.toList = a.1.toList ++ front)
    (hordinal : Nat.toDigits 10 a.2 = front ++ Nat.toDigits 10 b.2) : a = b ∨ Overlaps a b := by
  cases front with
  | nil =>
    rw [List.append_nil, String.toList_inj] at hleft
    rw [List.nil_append, ← toList_toString, ← toList_toString, String.toList_inj] at hordinal
    exact .inl (Prod.ext hleft.symm (Nat.repr_injective hordinal))
  | cons c front =>
    obtain ⟨d, hd, hfront⟩ := exists_toDigits_front hordinal (List.cons_ne_nil c front) Nat.toDigits_ne_nil
    refine .inr ⟨d, hd, ?_, ?_⟩
    · rw [← String.toList_inj, String.toList_append, toList_toString, ← hfront, hleft]
    · rw [← String.toList_inj, String.toList_append, toList_toString, toList_toString, toList_toString, ← hfront,
        hordinal]

lemma append_eq_iff : a.1 ++ toString a.2 = b.1 ++ toString b.2 ↔ a = b ∨ Clash a b := by
  constructor
  · intro h
    rw [← String.toList_inj, String.toList_append, String.toList_append, toList_toString, toList_toString,
      List.append_eq_append_iff] at h
    obtain ⟨front, hleft, hordinal⟩ | ⟨front, hleft, hordinal⟩ := h
    · exact (eq_or_overlaps_of_front hleft hordinal).imp_right .inl
    · exact (eq_or_overlaps_of_front hleft hordinal).imp Eq.symm .inr
  · rintro (rfl | h | h)
    · rfl
    · exact h.append_eq
    · exact h.append_eq.symm

lemma toLower_inj {c d : Char} (hc : c.isUpper = true) (hd : d.isUpper = true) : c.toLower = d.toLower ↔ c = d := by
  rw [Char.isUpper, decide_eq_true_eq] at hc hd
  rw [Char.toLower, Char.toLower, dif_pos hc, dif_pos hd, Char.ext_iff, add_left_inj, Char.ext_iff]

lemma defaultLabel_eq_iff (ha : IsNonterminal a.1) (hb : IsNonterminal b.1) :
    defaultLabel a.1 a.2 = defaultLabel b.1 b.2 ↔ a = b ∨ Clash a b := by
  rw [← append_eq_iff]
  obtain ⟨c, run, hc, _, hleft⟩ := ha.exists_upper
  obtain ⟨d, run', hd, _, hleft'⟩ := hb.exists_upper
  rw [hleft, hleft']
  simp only [defaultLabel, decapitalize_ofList, ← String.toList_inj, String.toList_append, String.toList_ofList,
    List.cons_append, List.cons.injEq, toLower_inj hc hd]

lemma defaultLabel_ne_start (left : String) (ordinal : ℕ) : defaultLabel left ordinal ≠ startLabel := by
  intro h
  have hlast : (defaultLabel left ordinal).toList.getLast? = some 't' := by
    rw [h]
    decide
  rw [defaultLabel, String.toList_append, toList_toString, List.getLast?_append_of_ne_nil _ Nat.toDigits_ne_nil]
    at hlast
  cases Nat.isDigit_of_mem_toDigits (by decide) le_rfl (List.mem_of_getLast? hlast)

end Clashes

def origins (rules : List Rule) : List (String × ℕ) := rules.mapIdx fun i r => (r.left, ordinalAt rules i r)

/-- The rule at a place is the first that runs together with one before it, and no rule up to it has a reserved
name. -/
structure FirstClash (rules : List Rule) (k : ℕ) (r : Rule) : Prop where
  rule : rules[k]? = some r
  clash : ∃ a ∈ (origins rules).take k, Clash a (r.left, ordinalAt rules k r)
  first : ((origins rules).take k).Pairwise fun a b => ¬ Clash a b
  unreserved : ∀ q ∈ rules.take (k + 1), Unreserved q

section Unlabelled

variable {rules : List Rule} {text : String} {line : ℕ} {label : String}

lemma getElem?_origins (rules : List Rule) (i : ℕ) :
    (origins rules)[i]? = rules[i]?.map fun r => (r.left, ordinalAt rules i r) := List.getElem?_mapIdx

lemma exists_rule_of_origin {k : ℕ} {a : String × ℕ} (ha : a ∈ (origins rules).take k) : ∃ r ∈ rules, r.left = a.1 := by
  obtain ⟨i, hi, rfl⟩ := List.mem_mapIdx.mp (List.mem_of_mem_take ha)
  exact ⟨rules[i], List.getElem_mem hi, rfl⟩

lemma ordinalAt_lt {i j : ℕ} {q r : Rule} (hij : i < j) (hr : rules[j]? = some r) (hleft : q.left = r.left) :
    ordinalAt rules i q < ordinalAt rules j r := by
  calc ordinalAt rules i q
    _ = countLeft r.left (rules.take (i + 1)) := by rw [ordinalAt, hleft]
    _ ≤ countLeft r.left (rules.take j) := (List.take_prefix_take_left hij).sublist.countP_le
    _ < ordinalAt rules j r := by simp [ordinalAt, List.take_add_one, hr, countLeft]

lemma origins_nodup (rules : List Rule) : (origins rules).Nodup := by
  rw [List.nodup_iff_getElem?_ne_getElem?]
  intro i j hij hj he
  rw [origins, List.length_mapIdx] at hj
  have hi := hij.trans hj
  rw [getElem?_origins, getElem?_origins, List.getElem?_eq_getElem hi, List.getElem?_eq_getElem hj, Option.map_some,
    Option.map_some] at he
  obtain ⟨hleft, hordinal⟩ := Prod.mk.inj (Option.some.inj he)
  exact (ordinalAt_lt hij (List.getElem?_eq_getElem hj) hleft).ne hordinal

lemma origin_notMem {k : ℕ} {r : Rule} (hr : rules[k]? = some r) :
    (r.left, ordinalAt rules k r) ∉ (origins rules).take k := by
  have hnodup := (origins_nodup rules).sublist (List.take_sublist (k + 1) _)
  rw [List.take_add_one, getElem?_origins, hr, List.nodup_append] at hnodup
  exact fun hmem => hnodup.2.2 _ hmem _ (List.mem_singleton_self _) rfl

lemma start_notMem (as : List (String × ℕ)) : startLabel ∉ as.map fun a => defaultLabel a.1 a.2 := by
  intro hmem
  obtain ⟨a, _, he⟩ := List.mem_map.mp hmem
  exact defaultLabel_ne_start a.1 a.2 he

section Names

variable {as : List (String × ℕ)} (hnames : ∀ a ∈ as, IsNonterminal a.1)

include hnames

lemma mem_defaultLabels_iff {b : String × ℕ} (hb : IsNonterminal b.1) (hnew : b ∉ as) :
    defaultLabel b.1 b.2 ∈ as.map (fun a => defaultLabel a.1 a.2) ↔ ∃ a ∈ as, Clash a b := by
  rw [List.mem_map]
  refine exists_congr fun a => and_congr_right fun ha => ?_
  rw [defaultLabel_eq_iff (hnames a ha) hb]
  exact or_iff_right fun he => hnew (he ▸ ha)

lemma nodup_defaultLabels_iff (hnodup : as.Nodup) :
    (as.map fun a => defaultLabel a.1 a.2).Nodup ↔ as.Pairwise fun a b => ¬ Clash a b := by
  have hiff : as.Pairwise (fun a b => defaultLabel a.1 a.2 ≠ defaultLabel b.1 b.2) ↔
      as.Pairwise fun a b => a ≠ b ∧ ¬ Clash a b :=
    List.Pairwise.iff_of_mem fun ha hb => by rw [Ne, defaultLabel_eq_iff (hnames _ ha) (hnames _ hb), not_or]
  rw [List.Nodup, List.pairwise_map, hiff, List.pairwise_and_iff]
  exact and_iff_right hnodup

end Names

section Text

variable (hnone : ∀ r ∈ rules, r.label = none)

include hnone

lemma labelsAfter_unlabelled : labelsAfter [] rules = (origins rules).map fun a => defaultLabel a.1 a.2 := by
  rw [labelsAfter_nil]
  refine List.ext_getElem? fun i => ?_
  rw [List.getElem?_mapIdx, List.getElem?_map, getElem?_origins, Option.map_map]
  refine Option.map_congr fun r hr => ?_
  rw [labelAt, hnone r (List.mem_of_getElem? hr)]
  rfl

lemma repeats_iff_firstClash {k : ℕ} (hnames : ∀ r ∈ rules, IsNonterminal r.left) :
    Repeats [] rules [startLabel] line label k ↔
      ∃ r, FirstClash rules k r ∧ r.line = line ∧ defaultLabel r.left (ordinalAt rules k r) = label := by
  have hbefore : ∀ a ∈ (origins rules).take k, IsNonterminal a.1 := by
    intro a ha
    obtain ⟨r, hr, hleft⟩ := exists_rule_of_origin ha
    exact hleft ▸ hnames r hr
  have hlabels : (labelsAfter [] rules).take k = ((origins rules).take k).map fun a => defaultLabel a.1 a.2 := by
    rw [labelsAfter_unlabelled hnone, List.map_take]
  have hlabel {r : Rule} (hr : rules[k]? = some r) :
      (labelsAfter [] rules)[k]? = some (defaultLabel r.left (ordinalAt rules k r)) := by
    rw [labelsAfter_unlabelled hnone, List.getElem?_map, getElem?_origins, hr]
    rfl
  have hmem {r : Rule} (hr : rules[k]? = some r) :
      defaultLabel r.left (ordinalAt rules k r) ∈ [startLabel] ++ (labelsAfter [] rules).take k ↔
        ∃ a ∈ (origins rules).take k, Clash a (r.left, ordinalAt rules k r) := by
    rw [hlabels, List.singleton_append, List.mem_cons, or_iff_right (defaultLabel_ne_start _ _)]
    exact mem_defaultLabels_iff (b := (r.left, ordinalAt rules k r)) hbefore (hnames r (List.mem_of_getElem? hr))
      (origin_notMem hr)
  have hnodup : ([startLabel] ++ (labelsAfter [] rules).take k).Nodup ↔
      ((origins rules).take k).Pairwise fun a b => ¬ Clash a b := by
    rw [hlabels, List.singleton_append, List.nodup_cons, and_iff_right (start_notMem _)]
    exact nodup_defaultLabels_iff hbefore ((origins_nodup rules).sublist (List.take_sublist k _))
  constructor
  · rintro ⟨⟨r, hr, hline⟩, hgiven, hclash, hfirst, hunreserved⟩
    obtain rfl := Option.some.inj ((hlabel hr).symm.trans hgiven)
    exact ⟨r, ⟨hr, (hmem hr).mp hclash, hnodup.mp hfirst, hunreserved⟩, hline, rfl⟩
  · rintro ⟨r, ⟨hr, hclash, hfirst, hunreserved⟩, hline, rfl⟩
    exact ⟨⟨r, hr, hline⟩, hlabel hr, (hmem hr).mpr hclash, hnodup.mpr hfirst, hunreserved⟩

end Text

lemma parse_eq_duplicate_unlabelled (hnone : ∀ rules, Written text rules → ∀ r ∈ rules, r.label = none) :
    parse text = .error (.duplicateLabel line label) ↔ ∃ rules k r, Written text rules ∧ FirstClash rules k r ∧
      r.line = line ∧ defaultLabel r.left (ordinalAt rules k r) = label := by
  rw [parse_eq_duplicate]
  refine exists_congr fun rules => ?_
  constructor
  · rintro ⟨hwritten, k, h⟩
    obtain ⟨r, h⟩ := (repeats_iff_firstClash (hnone rules hwritten) (Reads.isNonterminal hwritten)).mp h
    exact ⟨k, r, hwritten, h⟩
  · rintro ⟨k, r, hwritten, h⟩
    exact ⟨hwritten, k, (repeats_iff_firstClash (hnone rules hwritten) (Reads.isNonterminal hwritten)).mpr ⟨r, h⟩⟩

/-- A text without labels in which no left side is another one with a number behind it has no clash. -/
theorem parse_ne_duplicate (hnone : ∀ rules, Written text rules → ∀ r ∈ rules, r.label = none)
    (hapart : ∀ rules, Written text rules → ∀ q ∈ rules, ∀ r ∈ rules, ∀ d, 0 < d → r.left ≠ q.left ++ toString d) :
    parse text ≠ .error (.duplicateLabel line label) := by
  rw [Ne, parse_eq_duplicate_unlabelled hnone]
  rintro ⟨rules, k, r, hwritten, h, _⟩
  obtain ⟨a, ha, hclash⟩ := h.clash
  obtain ⟨q, hq, hleft⟩ := exists_rule_of_origin ha
  have hr := List.mem_of_getElem? h.rule
  obtain ⟨d, hd, he, _⟩ | ⟨d, hd, he, _⟩ := hclash
  · exact hapart rules hwritten q hq r hr d hd (hleft ▸ he)
  · exact hapart rules hwritten r hr q hq d hd (hleft ▸ he)

end Unlabelled

/-- The labels that the rules of a text without labels get. None is that of the start rule, two are the same only where
digits run together, and the first rule with which this happens is the one that is refused for its label. -/
theorem parse_duplicateLabel_iff {text : String}
    (hnone : ∀ rules, Written text rules → ∀ r ∈ rules, r.label = none) :
    (∀ a : String × ℕ, defaultLabel a.1 a.2 ≠ startLabel) ∧
      (∀ a b : String × ℕ, IsNonterminal a.1 → IsNonterminal b.1 →
        (defaultLabel a.1 a.2 = defaultLabel b.1 b.2 ↔ a = b ∨ Clash a b)) ∧
      ∀ line label, parse text = .error (.duplicateLabel line label) ↔
        ∃ rules k r, Written text rules ∧ FirstClash rules k r ∧ r.line = line ∧
          defaultLabel r.left (ordinalAt rules k r) = label :=
  ⟨fun a => defaultLabel_ne_start a.1 a.2, fun _ _ => defaultLabel_eq_iff,
    fun _ _ => parse_eq_duplicate_unlabelled hnone⟩

section Elevenfold

def elevenfold : String :=
  "S -> S1\nS -> a\nS -> b\nS -> c\nS -> d\nS -> e\nS -> f\nS -> g\nS -> h\nS -> i\nS -> j\nS1 -> k"

lemma rules_elevenfold : rules elevenfold = .ok [⟨1, none, "S", [.nonterm "S1"]⟩, ⟨2, none, "S", [.term "a"]⟩,
    ⟨3, none, "S", [.term "b"]⟩, ⟨4, none, "S", [.term "c"]⟩, ⟨5, none, "S", [.term "d"]⟩,
    ⟨6, none, "S", [.term "e"]⟩, ⟨7, none, "S", [.term "f"]⟩, ⟨8, none, "S", [.term "g"]⟩,
    ⟨9, none, "S", [.term "h"]⟩, ⟨10, none, "S", [.term "i"]⟩, ⟨11, none, "S", [.term "j"]⟩,
    ⟨12, none, "S1", [.term "k"]⟩] := by
  decide +kernel

lemma parse_elevenfold : parse elevenfold = .error (.duplicateLabel 12 "s11") := by
  rw [parse, rules_elevenfold]
  decide +kernel

lemma elevenfold_unlabelled : ∀ rs, Written elevenfold rs → ∀ r ∈ rs, r.label = none := by
  intro rs h
  rw [← rules_eq_ok, rules_elevenfold] at h
  rw [← Except.ok.inj h]
  simp

theorem parse_duplicateLabel_elevenfold :
    (∀ rules, Written elevenfold rules → ∀ r ∈ rules, r.label = none) ∧
      IsNonterminal "S" ∧ IsNonterminal "S1" ∧ Clash ("S", 11) ("S1", 1) ∧
      ∃ rules k r, Written elevenfold rules ∧ FirstClash rules k r ∧ r.line = 12 ∧
        defaultLabel r.left (ordinalAt rules k r) = "s11" := by
  have hnames := Reads.isNonterminal (rules_eq_ok.mp rules_elevenfold)
  have hS := hnames ⟨1, none, "S", [.nonterm "S1"]⟩ (by simp)
  have hS1 := hnames ⟨12, none, "S1", [.term "k"]⟩ (by simp)
  obtain ⟨_, hlabels, hrefused⟩ := parse_duplicateLabel_iff elevenfold_unlabelled
  have hclash := (hlabels ("S", 11) ("S1", 1) hS hS1).mp (by decide +kernel)
  exact ⟨elevenfold_unlabelled, hS, hS1, hclash.resolve_left (by decide), (hrefused 12 "s11").mp parse_elevenfold⟩

/-- The eleventh rule for `S` and the first for `S1` get one label, and a text without labels is refused for it. -/
theorem elevenfold_refused : (∃ rules, Written elevenfold rules ∧ ∀ r ∈ rules, r.label = none) ∧
    parse elevenfold = .error (.duplicateLabel 12 "s11") ∧
    (("S", 11) : String × ℕ) ≠ ("S1", 1) ∧ defaultLabel "S" 11 = defaultLabel "S1" 1 := by
  have hwritten := rules_eq_ok.mp rules_elevenfold
  exact ⟨⟨_, hwritten, elevenfold_unlabelled _ hwritten⟩, parse_elevenfold, by decide, by decide +kernel⟩

end Elevenfold

end Ramify.Grammar
