import Ramify.Proofs.C.Sketches
import Ramify.Proofs.Parse.AcceptingRuns
import Ramify.Proofs.Parse.Attachment

/-! No sentence of C is lost by the preference for shifting `else`. Each tree can be rewritten such that
every `else` belongs to the nearest `if`. A state that can shift `else` can reduce nothing but an
`if` without `else`, and in front of `else` the rewritten tree has no such node. -/

namespace Ramify.C

open LR

namespace Rules

def ifThenSide : List NamedSymbol := [t "if", t "leftParen", n "Expression", t "rightParen", n "Statement"]

lemma branching : (∃ short ∈ rules, short.label = some "ifThen" ∧ short.right = ifThenSide ∧
      ∃ long ∈ rules, long.label = some "ifElse" ∧ long.left = short.left ∧
        long.right = ifThenSide ++ [t "else", n "Statement"]) ∧
    (∀ r ∈ rules, (t "else" ∈ r.right → r.label = some "ifElse") ∧
      (r.right <:+ ifThenSide ∨ ifThenSide <:+ r.right →
        r.label = some "ifThen" ∨ r.left = "BlockItem" ∧ r.right.length = 1) ∧
      (∀ pair ∈ r.right.zip r.right.tail, pair.1 = t "rightParen" →
        pair.2 ≠ n "BlockItem" ∧ pair.2 ≠ n "BlockItemList") ∧
      (r.right.head? = some (n "BlockItem") ∨ r.right.head? = some (n "BlockItemList") → r.left = "BlockItemList")) ∧
    ∀ name ∈ ["TranslationUnit", "BlockItem", "BlockItemList"], ∃ r ∈ rules, r.left = name := by
  decide +kernel

lemma ifThen_rule : ∃ short ∈ rules, short.label = some "ifThen" ∧ short.right = ifThenSide ∧
    ∃ long ∈ rules, long.label = some "ifElse" ∧ long.left = short.left ∧
      long.right = ifThenSide ++ [t "else", n "Statement"] :=
  branching.1

section Sides

variable {r : Rule} (hr : r ∈ rules)

include hr

lemma else_only : t "else" ∈ r.right → r.label = some "ifElse" := (branching.2.1 r hr).1

lemma suffix_ifThenSide : r.right <:+ ifThenSide ∨ ifThenSide <:+ r.right →
    r.label = some "ifThen" ∨ r.left = "BlockItem" ∧ r.right.length = 1 :=
  (branching.2.1 r hr).2.1

lemma after_rightParen : ∀ pair ∈ r.right.zip r.right.tail, pair.1 = t "rightParen" →
    pair.2 ≠ n "BlockItem" ∧ pair.2 ≠ n "BlockItemList" :=
  (branching.2.1 r hr).2.2.1

lemma blockItem_head : r.right.head? = some (n "BlockItem") ∨ r.right.head? = some (n "BlockItemList") →
    r.left = "BlockItemList" :=
  (branching.2.1 r hr).2.2.2

end Sides

lemma named_symbols : Grammar.Named rules (t "rightParen") ∧ Grammar.Named rules (n "TranslationUnit") ∧
    Grammar.Named rules (n "BlockItem") ∧ Grammar.Named rules (n "BlockItemList") := by
  obtain ⟨short, hshort, _, hside, _⟩ := ifThen_rule
  have hnamed : ∀ name ∈ ["TranslationUnit", "BlockItem", "BlockItemList"], Grammar.Named rules (n name) := by
    intro name hname
    obtain ⟨r, hr, rfl⟩ := branching.2.2 name hname
    exact Grammar.named_left hr
  refine ⟨Grammar.named_right hshort ?_, hnamed _ ?_, hnamed _ ?_, hnamed _ ?_⟩ <;> simp [hside, ifThenSide]

end Rules

open Rules in
def code (g : Grammar) (x : NamedSymbol) : Nat := g.number (Grammar.numberOf rules x)

namespace Vocabulary.Standard

open Rules

variable {V : Vocabulary} {g : Grammar} (h : V.Standard g)

include h

lemma exists_rule {i : Nat} {p : Production} (hp : g.productions[i + 1]? = some p) :
    ∃ r, rules[i]? = some r ∧ .nonterm p.lhs = Grammar.numberOf rules (.nonterm r.left) ∧
      p.rhs = r.right.map (Grammar.numberOf rules) ∧ ∀ l, r.label = some l → p.label = l := by
  obtain ⟨r, hr⟩ := Grammar.ofRules_rule h.grammar_eq hp
  obtain ⟨p', hp', hlhs, hrhs, hlabel⟩ := Grammar.ofRules_production h.grammar_eq hr
  obtain rfl := Option.some.inj (hp.symm.trans hp')
  exact ⟨r, hr, hlhs, hrhs, hlabel⟩

lemma eq_of_label {p q : Production} (hp : p ∈ g.productions) (hq : q ∈ g.productions) (hlabel : p.label = q.label) :
    p = q := by
  obtain ⟨i, hi⟩ := Array.mem_iff_getElem?.mp hp
  obtain ⟨j, hj⟩ := Array.mem_iff_getElem?.mp hq
  obtain rfl := Grammar.ofRules_label_inj h.grammar_eq hi hj hlabel
  exact Option.some.inj (hi.symm.trans hj)

lemma exists_rule_of_term {p : Production} (hp : p ∈ g.productions) {e : Nat} (he : .term e ∈ p.rhs) :
    ∃ r ∈ rules, p.rhs = r.right.map (Grammar.numberOf rules) ∧ ∀ l, r.label = some l → p.label = l := by
  obtain ⟨i, hi⟩ := Array.mem_iff_getElem?.mp hp
  cases i with
  | zero =>
    obtain ⟨start, first, hstart, _, _, hrhs, _⟩ := h.numbered.start
    obtain rfl := Option.some.inj (hi.symm.trans hstart)
    rw [hrhs] at he
    cases List.mem_singleton.mp he
  | succ i =>
    obtain ⟨r, hr, _, hrhs, hlabel⟩ := h.exists_rule hi
    exact ⟨r, List.mem_of_getElem? hr, hrhs, hlabel⟩

lemma dangling : ∃ short long e, g.Dangling short long e [Grammar.numberOf rules (n "Statement")] ∧
    Grammar.numberOf rules (t "else") = .term e ∧ short.rhs = ifThenSide.map (Grammar.numberOf rules) ∧
    short.label = "ifThen" := by
  obtain ⟨r, hr, hlabel, hright, r', hr', hlabel', hleft', hright'⟩ := ifThen_rule
  obtain ⟨i, hi⟩ := List.mem_iff_getElem?.mp hr
  obtain ⟨j, hj⟩ := List.mem_iff_getElem?.mp hr'
  obtain ⟨short, hshort, hlhs, hrhs, hl⟩ := Grammar.ofRules_production h.grammar_eq hi
  obtain ⟨long, hlong, hlhs', hrhs', hl'⟩ := Grammar.ofRules_production h.grammar_eq hj
  obtain ⟨e, he⟩ : ∃ e, Grammar.numberOf rules (t "else") = .term e := ⟨_, rfl⟩
  have hnamed : Grammar.Named rules (t "else") :=
    Grammar.named_right hr' (hright' ▸ List.mem_append_right _ List.mem_cons_self)
  have hterm : ∀ r ∈ rules, ∀ i : Nat, (r.right.map (Grammar.numberOf rules))[i]? = some (.term e) →
      r.right[i]? = some (t "else") := by
    intro r hr i hi
    rw [List.getElem?_map] at hi
    obtain ⟨x, hx, hnumber⟩ := Option.map_eq_some_iff.mp hi
    rw [← he] at hnumber
    rw [hx, Grammar.numberOf_inj (Grammar.named_right hr (List.mem_of_getElem? hx)) hnamed hnumber]
  rw [hright] at hrhs
  have hlongRhs : long.rhs = short.rhs ++ [.term e, Grammar.numberOf rules (n "Statement")] := by
    rw [hrhs', hright', List.map_append, hrhs, ← he]
    rfl
  refine ⟨short, long, e, ⟨Array.mem_of_getElem? hshort, Array.mem_of_getElem? hlong, ?_, hlongRhs, ?_, ?_, ?_⟩, he, hrhs,
    hl _ hlabel⟩
  · rw [hleft', ← hlhs] at hlhs'
    exact Symbol.nonterm.inj hlhs'
  · exact h.rhs_ne_nil (Array.mem_of_getElem? hshort)
  · exact fun p hp => h.rhs_ne_nil hp
  · intro p hp k hk
    obtain ⟨r'', hr'', hrhs'', hl''⟩ := h.exists_rule_of_term hp (List.mem_of_getElem? hk)
    have helse := hterm r'' hr'' k (hrhs'' ▸ hk)
    have hsame := hl'' _ (else_only hr'' (List.mem_of_getElem? helse))
    obtain rfl := h.eq_of_label hp (Array.mem_of_getElem? hlong) (hsame.trans (hl' _ hlabel').symm)
    refine ⟨rfl, ?_⟩
    -- It is at the only place where `else` stands.
    have hat := hterm r' hr' k (hrhs' ▸ hk)
    rw [hright'] at hat
    rw [hrhs, List.length_map]
    match k, hat with
    | 5, _ => rfl
    | k + 7, hat => cases hat

lemma numberOf_inRange {x : NamedSymbol} (hx : Grammar.Named rules x) :
    (Grammar.numberOf rules x).InRange g.nonterminals.size := by
  intro i hi
  cases x with
  | term _ => cases hi
  | nonterm name =>
    obtain rfl := Symbol.nonterm.inj hi
    rw [Grammar.ofRules_nonterminals h.grammar_eq, List.size_toArray]
    exact List.idxOf_lt_length_of_mem hx

lemma code_inj {x y : NamedSymbol} (hx : Grammar.Named rules x) (hy : Grammar.Named rules y)
    (heq : code g x = code g y) : x = y :=
  Grammar.numberOf_inj hx hy (Grammar.number_inj (h.numberOf_inRange hx) (h.numberOf_inRange hy) heq)

lemma map_code_inj {xs ys : List NamedSymbol} (hx : ∀ x ∈ xs, Grammar.Named rules x)
    (hy : ∀ y ∈ ys, Grammar.Named rules y) (heq : xs.map (code g) = ys.map (code g)) : xs = ys := by
  induction xs generalizing ys with
  | nil => exact (List.map_eq_nil_iff.mp heq.symm).symm
  | cons x xs ih =>
    obtain ⟨y, ys, rfl, hhead, htail⟩ := List.map_eq_cons_iff.mp heq.symm
    rw [List.forall_mem_cons] at hx hy
    rw [h.code_inj hx.1 hy.1 hhead.symm, ih hx.2 hy.2 htail.symm]

lemma suffix_of_code {xs ys : List NamedSymbol} (hx : ∀ x ∈ xs, Grammar.Named rules x)
    (hy : ∀ y ∈ ys, Grammar.Named rules y) (hsuffix : xs.map (code g) <:+ ys.map (code g)) : xs <:+ ys := by
  rw [List.suffix_iff_eq_drop, List.length_map, List.length_map, ← List.map_drop] at hsuffix
  rw [List.suffix_iff_eq_drop]
  exact h.map_code_inj hx (fun y hmem => hy y (List.mem_of_mem_drop hmem)) hsuffix

lemma rules_getElem? {i : Nat} {r : Rule} (hr : rules[i]? = some r) :
    (NumberedGrammar.ofGrammar g).rules[i + 1]? = some ⟨code g (n r.left), r.right.map (code g)⟩ := by
  obtain ⟨p, hp, hlhs, hrhs, _⟩ := Grammar.ofRules_production h.grammar_eq hr
  rw [Grammar.rules_getElem? hp, hrhs, List.map_map]
  rw [code, n, ← hlhs]
  rfl

lemma rule_cases {rule : NumberedRule} (hrule : rule ∈ (NumberedGrammar.ofGrammar g).rules) :
    rule.right = [code g (n "TranslationUnit")] ∨ ∃ r ∈ rules, rule = ⟨code g (n r.left), r.right.map (code g)⟩ := by
  obtain ⟨i, hi⟩ := Array.mem_iff_getElem?.mp hrule
  cases i with
  | zero =>
    obtain ⟨start, first, hstart, hfirst, _, hrhs, _⟩ := h.numbered.start
    obtain rfl := Option.some.inj (hi.symm.trans (Grammar.rules_getElem? hstart))
    rw [hrhs, List.map_singleton, h.first_eq hfirst]
    exact Or.inl rfl
  | succ i =>
    obtain ⟨p, hp, rfl⟩ := Grammar.exists_production hi
    obtain ⟨r, hr, _⟩ := h.exists_rule hp
    have hnumbered := h.rules_getElem? hr
    exact Or.inr ⟨r, List.mem_of_getElem? hr, Option.some.inj (hi.symm.trans hnumbered)⟩

lemma blockItem_notMem_closure {s s' q : Nat} {r : Rule} (hr : rules[q]? = some r) (hleft : r.left = "BlockItem")
    (hgoto : (NumberedGrammar.ofGrammar g).collection.goto? s' (code g (t "rightParen")) = some s) :
    ⟨q + 1, 0⟩ ∉ (NumberedGrammar.ofGrammar g).closure ((NumberedGrammar.ofGrammar g).collection.kernel s) := by
  obtain ⟨hparen, hunit, hitem, hlist⟩ := named_symbols
  have hcode : ∀ r ∈ rules, ∀ {d : Nat} {k : Nat}, (r.right.map (code g))[d]? = some k →
      ∃ x, r.right[d]? = some x ∧ k = code g x ∧ Grammar.Named rules x := by
    intro r hr d k hk
    rw [List.getElem?_map] at hk
    obtain ⟨x, hx, rfl⟩ := Option.map_eq_some_iff.mp hk
    exact ⟨x, hx, rfl, Grammar.named_right hr (List.mem_of_getElem? hx)⟩
  intro hmem
  have hgood := NumberedGrammar.left_of_initial (NumberedGrammar.ofGrammar_wellFormed h.numbered) hgoto
    (fun k => k ≠ code g (n "BlockItem") ∧ k ≠ code g (n "BlockItemList")) ?_ ?_ hmem (h.rules_getElem? hr)
  · exact hgood.1 (by rw [hleft])
  · rintro rule hrule d k hd hk
    rcases h.rule_cases hrule with hright | ⟨r, hr, rfl⟩
    · rw [hright] at hk
      cases hk
    · obtain ⟨x, hx, hxcode, hxnamed⟩ := hcode r hr hd
      obtain ⟨y, hy, rfl, hynamed⟩ := hcode r hr hk
      obtain rfl := h.code_inj hparen hxnamed hxcode
      have hpair : (t "rightParen", y) ∈ r.right.zip r.right.tail := by
        refine List.mem_of_getElem? (i := d) ?_
        rw [List.getElem?_zip_eq_some]
        exact ⟨hx, List.getElem?_tail.trans hy⟩
      have hne := after_rightParen hr _ hpair rfl
      exact ⟨fun he => hne.1 (h.code_inj hynamed hitem he), fun he => hne.2 (h.code_inj hynamed hlist he)⟩
  · intro rule hrule hgood k hk
    rcases h.rule_cases hrule with hright | ⟨r, hr, rfl⟩
    · rw [hright] at hk
      obtain rfl := Option.some.inj hk
      exact ⟨fun he => absurd (h.code_inj hunit hitem he) (by decide),
        fun he => absurd (h.code_inj hunit hlist he) (by decide)⟩
    · obtain ⟨x, hx, rfl, hnamed⟩ := hcode r hr hk
      rw [← List.head?_eq_getElem?] at hx
      refine ⟨fun he => ?_, fun he => ?_⟩
      · obtain rfl := h.code_inj hnamed hitem he
        exact hgood.2 (by rw [blockItem_head hr (Or.inl hx)])
      · obtain rfl := h.code_inj hnamed hlist he
        exact hgood.2 (by rw [blockItem_head hr (Or.inr hx)])

lemma label_beside_else {e s u index : Nat} {p : Production} (he : Grammar.numberOf rules (t "else") = .term e)
    (hshift : .shift u ∈ Construction.allActions g s e) (hreduce : .reduce index ∈ Construction.allActions g s e)
    (hp : g.productions[index]? = some p) : p.label = "ifThen" := by
  have hw := NumberedGrammar.ofGrammar_wellFormed h.numbered
  obtain ⟨short, long, e', hd, he', hrhs, hlabel⟩ := h.dangling
  obtain rfl := Symbol.term.inj (he.symm.trans he')
  have hgoto := Construction.shift_mem_allActions.mp hshift
  obtain ⟨⟨q, d⟩, hi, hnext⟩ := NumberedGrammar.exists_item_of_goto? hw hgoto
  -- The item that waits for `else` has the beginning of an `if` behind it.
  obtain ⟨hq, hd5⟩ : (NumberedGrammar.ofGrammar g).right q = long.rhs.map g.number ∧ d = 5 := by
    obtain ⟨rule, hrule, hnext⟩ := NumberedGrammar.exists_rule_at hnext
    obtain ⟨p', hp', rfl⟩ := Grammar.exists_production hrule
    have hmem := Array.mem_of_getElem? hp'
    rw [List.getElem?_map] at hnext
    obtain ⟨x, hx, hnumber⟩ := Option.map_eq_some_iff.mp hnext
    obtain rfl : x = .term e := Grammar.number_inj (h.numbered.rhs_inRange hmem x (List.mem_of_getElem? hx)) nofun hnumber
    obtain ⟨rfl, rfl⟩ := hd.only p' hmem d hx
    exact ⟨NumberedGrammar.right_eq hrule, by rw [hrhs, List.length_map]; rfl⟩
  subst hd5
  have hbehind : ((NumberedGrammar.ofGrammar g).right q).take 5 = ifThenSide.map (code g) := by
    rw [hq, hd.rhs_eq, hrhs]
    rfl
  obtain ⟨states, symbols, hstack⟩ := NumberedGrammar.exists_stack hw (NumberedGrammar.goto?_lt hw hgoto)
  obtain ⟨hne, hlooks⟩ := (Construction.reduce_mem_allActions hw).mp hreduce
  have hcomplete := NumberedGrammar.looks_mem_closure hw hlooks
  obtain ⟨i, rfl⟩ := Nat.exists_eq_succ_of_ne_zero hne
  obtain ⟨r, hr, _, _, hl⟩ := h.exists_rule hp
  have hmem := List.mem_of_getElem? hr
  have hright := NumberedGrammar.right_eq (h.rules_getElem? hr)
  have hboth := List.suffix_or_suffix_of_suffix (hstack.suffix hw hcomplete) (hstack.suffix hw hi)
  rw [List.take_length, hright, hbehind] at hboth
  obtain ⟨r', hr', _, hside, _⟩ := ifThen_rule
  have hnamed : ∀ x ∈ ifThenSide, Grammar.Named rules x := fun x hx => Grammar.named_right hr' (hside ▸ hx)
  rcases suffix_ifThenSide hmem (hboth.imp (h.suffix_of_code (fun x => Grammar.named_right hmem) hnamed)
    (h.suffix_of_code hnamed fun x => Grammar.named_right hmem)) with hlabel | ⟨hleft, hlen⟩
  · exact hl _ hlabel
  · -- Below the statement both items stand behind the parenthesis.
    exfalso
    rw [hright, List.length_map, hlen] at hcomplete
    obtain ⟨s₁, _, _, _, hbelow⟩ := NumberedGrammar.exists_below hw hi
    obtain ⟨s₂, x, hgoto₂, hx, _⟩ := NumberedGrammar.exists_below hw (hbelow q 4 hi)
    obtain rfl : code g (t "rightParen") = x := by
      rw [← List.getElem?_take_of_lt (show 3 < 5 by decide), hbehind] at hx
      exact Option.some.inj hx
    exact h.blockItem_notMem_closure hr hleft hgoto₂ (hbelow (i + 1) 0 hcomplete)

end Vocabulary.Standard

section Accepted

open Search Search.Parser

variable {τ ν κ ε δ : Type} {P : Parser τ ν κ ε δ} {tokens : Array τ} {V : Vocabulary} {g : Grammar}

lemma preferred_else (h : V.Standard g) {u : Nat} (hu : u ∈ Construction.preferred preferShift g) :
    Grammar.numberOf Rules.rules (.term "else") = .term u := by
  obtain ⟨name, hname, hfind⟩ := List.mem_filterMap.mp hu
  obtain rfl := List.mem_singleton.mp hname
  obtain ⟨hlt, hget, _⟩ := Array.findIdx?_eq_some_iff_getElem.mp hfind
  refine Grammar.numberOf_term ?_
  rw [← eq_of_beq hget, ← Array.getElem?_eq_getElem hlt, Grammar.ofRules_terminals h.grammar_eq, List.getElem?_toArray]

lemma else_ne_end (h : V.Standard g) {e : Nat} (he : Grammar.numberOf Rules.rules (.term "else") = .term e) :
    e ≠ g.endTerminal := by
  rintro rfl
  obtain ⟨_, long, _, hd, he', _⟩ := h.dangling
  obtain rfl := Symbol.term.inj (he.symm.trans he')
  refine Grammar.ofRules_end_notMem h.grammar_eq long hd.long_mem ?_
  rw [hd.rhs_eq]
  exact List.mem_append_right _ List.mem_cons_self

lemma end_not_preferred (h : V.Standard g) : g.endTerminal ∉ Construction.preferred preferShift g :=
  fun hmem => else_ne_end h (preferred_else h hmem) rfl

lemma keeps_of_not_followed (h : V.Standard g) {terminal : τ → Option Nat} {nodes : List (Production × Nat)}
    (hnodes : ∀ p ∈ g.productions, p.label = "ifThen" → ∀ stop token u, (p, stop) ∈ nodes →
      tokens[stop]? = some token → Grammar.numberOf Rules.rules (.term "else") = .term u → terminal token ≠ some u) :
    Keeps preferShift g terminal tokens nodes := by
  intro s u index production stop token hreduce hproduction htok hterm hmem
  refine Cell.mem_ofActions hreduce fun _ hprefers b hb => ?_
  have helse := preferred_else h (List.contains_iff_mem.mp hprefers)
  cases b with
  | shift target =>
    have hlabel := h.label_beside_else helse hb hreduce hproduction
    exact absurd hterm (hnodes production (Array.mem_of_getElem? hproduction) hlabel stop token u hmem htok helse)
  | reduce _ | accept => rfl

end Accepted

/-- The preference for shifting `else` loses no sentence of C: what has a derivation tree, which is what
some path of the table without preferences accepts, some path of the table of C accepts as well. -/
theorem else_loses_no_sentence {τ ν κ ε δ : Type} {g : Grammar} (hg : grammar = .ok g) (P : Search.Parser τ ν κ ε δ)
    (takes : P.builder.NeverRejects) (tokens : Array τ) (he : EndsOnce P.builder.terminal g.endTerminal tokens)
    (store : δ) : let Q := fun prefers => { P with table := (Construction.ofGrammar prefers g).table }
    ((∃ tree : ParseTree τ, tree.IsParse P.builder.terminal g tokens) ↔
      ∃ values, (Q []).Accepts tokens store values) ∧
    ((∃ tree : ParseTree τ, tree.IsParse P.builder.terminal g tokens) ↔
      ∃ values, (Q preferShift).Accepts tokens store values) := by
  intro Q
  obtain ⟨V, _, h⟩ := exists_standard hg
  have hQ : ∀ prefers, (Q prefers).Constructed prefers g := fun _ => ⟨rfl, h.numbered⟩
  refine ⟨⟨?_, fun ⟨_, ha⟩ => (hQ []).exists_parse h.isolated he ha⟩,
    ⟨?_, fun ⟨_, ha⟩ => (hQ preferShift).exists_parse h.isolated he ha⟩⟩
  · rintro ⟨tree, htree⟩
    refine (hQ []).accepts takes h.isolated he List.not_mem_nil store htree ?_
    exact fun s t index _ _ _ ha _ _ _ _ => Cell.mem_ofActions ha fun _ hprefers => absurd hprefers nofun
  · rintro ⟨tree, first, hfirst, hderives, hleaves⟩
    obtain ⟨short, long, e, hd, he', _, hlabel⟩ := h.dangling
    obtain ⟨tree', hderives', hleaves', hnear⟩ := ParseTree.exists_nearest hd hderives
    obtain ⟨token, htoken, htokens⟩ := he.toList_eq
    rw [← hleaves, ← hleaves'] at htokens
    have hne := else_ne_end h he'
    refine (hQ preferShift).accepts takes h.isolated he (end_not_preferred h) store
      ⟨first, hfirst, hderives', hleaves'.trans hleaves⟩ ?_
    refine keeps_of_not_followed h fun p hp hp' stop token' u hmem htok hu => ?_
    obtain rfl := Symbol.term.inj (he'.symm.trans hu)
    obtain rfl := h.eq_of_label hp hd.short_mem (hp'.trans hlabel.symm)
    rw [← Array.getElem?_toList] at htok
    have hword : tokens.toList.drop 0 = tree'.leaves ++ [token] := htokens
    refine hnear.not_followed hd hderives' hword (fun _ token'' more hmore => ?_) hmem htok
    obtain ⟨rfl, _⟩ := List.cons.inj hmore
    exact fun hterm => hne (Option.some.inj (hterm.symm.trans htoken))

def nameTerminal (name : String) : Option Nat := some ((Grammar.terminalNames Rules.rules).idxOf name)

open Rules in
/-- In a function with `if (a) if (b) ; else ;` the `else` can be read as that of either `if`. -/
theorem else_loses_no_sentence_nested :
    let word := ["void", "identifier", "leftParen", "rightParen", "leftBrace", "if", "leftParen", "identifier",
      "rightParen", "if", "leftParen", "identifier", "rightParen", "semicolon", "else", "semicolon", "rightBrace"]
    ∃ g, grammar = .ok g ∧ (∃ tree : ParseTree String, tree.IsParse nameTerminal g (word ++ ["end"]).toArray) ∧
      ∃ values, Search.Parser.Accepts
        { table := (Construction.ofGrammar preferShift g).table,
          builder := .trees nameTerminal fun _ _ => () } (word ++ ["end"]).toArray () values := by
  intro word
  obtain ⟨g, hg⟩ := exists_grammar
  -- The `else` is that of the outer `if`, so the tree is not the one that the table finds.
  have hsketch : (sketched word [.token, .node "TypeSpecifier" 1, .token, .node "DirectDeclarator" 1, .token, .token,
      .node "DirectDeclarator" 3, .token, .token, .token, .token, .node "PrimaryExpression" 1, .token, .token, .token,
      .token, .node "PrimaryExpression" 1, .token, .token, .node "ExpressionStatement" 1, .node "SelectionStatement" 5,
      .token, .token, .node "ExpressionStatement" 1, .node "SelectionStatement" 7, .token, .node "CompoundStatement" 3,
      .node "FunctionDefinition" 3]).isSome = true := by
    decide +kernel
  obtain ⟨deeds, hdeeds⟩ := Option.isSome_iff_exists.mp hsketch
  have htells : Grammar.Tells rules nameTerminal id := fun _ _ => rfl
  have hend : nameTerminal "end" = some g.endTerminal := congrArg some (Grammar.ofRules_endTerminal hg).symm
  obtain ⟨he, tree, htree, _⟩ := exists_parse_of_sketch hg htells rfl hend (word.map_id.symm ▸ hdeeds)
  let P : Search.Parser String (ParseTree String) Unit Unit Unit :=
    { table := (Construction.ofGrammar preferShift g).table, builder := .trees nameTerminal fun _ _ => () }
  obtain ⟨values, haccepts⟩ := (else_loses_no_sentence hg P (Builder.neverRejects_trees _ _) _ he ()).2.mp ⟨tree, htree⟩
  exact ⟨g, hg, ⟨tree, htree⟩, values, haccepts⟩

end Ramify.C
