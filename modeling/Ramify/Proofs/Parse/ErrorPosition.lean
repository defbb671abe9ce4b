import Ramify.Proofs.LR.ShiftPreference
import Ramify.Proofs.Parse.Acceptance
import Ramify.Proofs.Parse.Completeness
import Ramify.Proofs.Parse.Sentences
import Ramify.Proofs.Search.PlainSearch

namespace Ramify

namespace Search.Parser

open LR

section Viable

variable {τ ν κ ε δ : Type} {P : Parser τ ν κ ε δ} {tokens : Array τ} {prefers : List String} {g : Grammar}
  {p q : Path ν κ} {symbols : List Symbol}

structure Spells (P : Parser τ ν κ ε δ) (tokens : Array τ) (g : Grammar) (p : Path ν κ) (symbols : List Symbol) :
    Prop extends P.Stands tokens g (fun _ _ => True) p symbols where
  derives : (NumberedGrammar.ofGrammar g).Derives (symbols.reverse.map g.number)
    ((tokens.toList.take p.position).map (ParseTree.tokenNumber P.builder.terminal g))
  known : ∀ token ∈ tokens.toList.take p.position, ∃ t, P.builder.terminal token = some t

lemma spells_start (hsize : 0 < tokens.size) (store : δ) : P.Spells tokens g (P.start store).path [] :=
  ⟨stands_start hsize store, .refl _, nofun⟩

lemma Spells.movesTo (h : P.Constructed prefers g) (hp : ∃ symbols, P.Spells tokens g p symbols)
    (hm : P.MovesTo tokens p q) : ∃ symbols, P.Spells tokens g q symbols := by
  obtain ⟨symbols, hp⟩ := hp
  obtain ⟨token, actions, action, store, store', hc, ha, hm⟩ := hm
  have hkeeps := P.builder.keeps_any tokens g.productions
  cases action with
  | shift target =>
    obtain ⟨_, _, _, _, htok, _, _⟩ := hp.mem_cell h hc ha
    obtain ⟨t, ht, hq⟩ := hp.toStands.shift h hkeeps hc ha hm
    obtain ⟨_, _, _, _, rfl⟩ := shift_next hm
    have htake : tokens.toList.take (p.position + 1) = tokens.toList.take p.position ++ [token] := by
      rw [List.take_add_one, Array.getElem?_toList, htok]
      rfl
    refine ⟨_, hq, ?_, ?_⟩
    · dsimp only
      rw [htake, List.reverse_cons, List.map_append, List.map_append, List.map_singleton, List.map_singleton,
        ParseTree.tokenNumber, ht]
      exact hp.derives.append (.refl _)
    · dsimp only
      rw [htake]
      exact List.forall_mem_append.mpr ⟨hp.known, by simpa using ⟨t, ht⟩⟩
  | reduce index =>
    obtain ⟨production, hprod, hrhs, hq⟩ := hp.toStands.reduce h hkeeps hc ha hm
    obtain ⟨_, _, _, _, _, _, _, _, _, _, rfl⟩ := reduce_next hm
    refine ⟨_, hq, ?_, hp.known⟩
    have hderives := hp.derives
    rw [reverse_split production.rhs.length symbols, hrhs, List.map_append] at hderives
    rw [List.reverse_cons, List.map_append, List.map_singleton]
    have hrule : (NumberedGrammar.ofGrammar g).Derives [g.number (.nonterm production.lhs)]
        (production.rhs.map g.number) :=
      .of_rule (r := ⟨production.lhs, production.rhs.map g.number⟩) (Array.mem_map_of_mem hprod)
    exact (NumberedGrammar.Derives.append (.refl _) hrule).trans hderives
  | accept => exact absurd hm accept_ne_next

lemma Spells.beginsSentence (h : P.Constructed prefers g) (hG : (NumberedGrammar.ofGrammar g).Productive)
    (hp : P.Spells tokens g p symbols) :
    g.BeginsSentence P.builder.terminal (tokens.toList.take p.position) := by
  have hw := NumberedGrammar.ofGrammar_wellFormed h.numbered
  obtain ⟨s, states, hs⟩ := hp.states_eq
  have hstack := hs ▸ hp.stack
  obtain ⟨i, hi⟩ := hstack.exists_item hw
  obtain ⟨after, hafter⟩ := hstack.exists_derivation hw hi
  obtain ⟨word, hword, hd⟩ := hG.exists_word (((NumberedGrammar.ofGrammar g).right i.rule).drop i.dot ++ after)
  rw [List.append_assoc, ← List.map_reverse] at hafter
  set read := tokens.toList.take p.position
  -- The tokens read and the word that is still missing, as terminals.
  let front := read.map fun token => (P.builder.terminal token).getD 0
  let back := word.map (· - g.nonterminals.size)
  have hback : back.map (g.nonterminals.size + ·) = word := by
    rw [List.map_map]
    refine (List.map_congr_left fun t ht => ?_).trans (List.map_id word)
    exact Nat.add_sub_cancel' (hword t ht)
  have hfront : front.map (g.nonterminals.size + ·) = read.map (ParseTree.tokenNumber P.builder.terminal g) :=
    List.map_map ..
  refine ⟨front ++ back, h.numbered.sentence_of_derives ?_, ?_⟩
  · rw [List.map_append, hback, hfront]
    exact hafter.trans (hp.derives.append hd)
  · rw [List.append_assoc, List.map_append]
    have hterminals : read.map P.builder.terminal = front.map some := by
      rw [List.map_map]
      refine List.map_congr_left fun token ht => ?_
      obtain ⟨t, ht⟩ := hp.known token ht
      rw [Function.comp_apply, ht]
      rfl
    exact ⟨_, by rw [hterminals]⟩

end Viable

section Takes

variable {τ ν κ ε δ : Type} {P : Parser τ ν κ ε δ} {tokens : Array τ} {prefers : List String} {g : Grammar}
  {p q : Path ν κ} {symbols : List Symbol} {Good : Symbol → ν → Prop} {store store' : δ}
  {es : List (Ending ν ε)} {token : τ} {actions : List Action} {action : Action}

lemma TakesAll.refused (h : P.TakesAll prefers g) (hp : P.Stands tokens g Good p symbols)
    (hc : P.cell tokens p = some (token, actions)) (ha : action ∈ actions) {reason : Option ε}
    (hm : P.move tokens store p token action = (store', .rejected reason)) :
    reason = some (P.builder.syntaxError token p.position) := by
  have hlt := hp.position_lt
  cases action with
  | shift target =>
    rw [move, shiftMove] at hm
    split at hm
    · -- The end of the input is not shifted; the error is that of the last token, where the path is.
      rename_i hle
      obtain ⟨_, hm⟩ := Prod.mk.inj hm
      have hposition : tokens.size - 1 = p.position := by omega
      rw [← Move.rejected.inj hm, hposition]
    · obtain ⟨_, _, _, hb⟩ := h.takes.shift_ok store p.context token p.position
      rw [hb] at hm
      cases hm
  | reduce index =>
    obtain ⟨production, exposed, target, hprod, hle, _, he, _, hg⟩ := hp.reduction h.toConstructed hc ha
    obtain ⟨_, _, _, hb⟩ := h.takes.reduce_ok store p.context production
      (p.values.take production.rhs.length).reverse
    rw [move_reduce (h.productions_eq ▸ hprod) he (hp.good.length_eq ▸ hle) hg hb] at hm
    cases hm
  | accept =>
    obtain ⟨value, values, hv⟩ := List.exists_cons_of_ne_nil (hp.accept_ne_nil h.toConstructed hc ha)
    rw [move_accept hv] at hm
    cases hm

lemma TakesAll.rejects (h : P.TakesAll prefers g) (hp : P.Stands tokens g Good p symbols) {reason : Option ε}
    (hr : P.Rejects tokens p reason) : ∃ token, reason = some (P.builder.syntaxError token p.position) := by
  have hlt := hp.position_lt
  have hmin : min p.position (tokens.size - 1) = p.position := Nat.min_eq_left (by omega)
  cases hr with
  | lost hc =>
    obtain ⟨s, states, hs⟩ := hp.states_eq
    rw [cell, hs, hmin, Array.getElem?_eq_getElem hlt] at hc
    cases hc
  | @empty token hc => exact ⟨token, by rw [cellError, hmin]⟩
  | @refused token _ _ _ _ _ hc ha hm => exact ⟨token, h.refused hp hc ha hm⟩

lemma TakesAll.exists_ending (h : P.TakesAll prefers g) {k : Nat} (he : P.Explores tokens store p k store' es)
    (hk : k = 0) (hp : ∃ symbols, P.Stands tokens g (fun _ _ => True) p symbols) :
    accepted es ≠ [] ∨ ∃ r ∈ rejections es, p.position ≤ r.1 := by
  have hkeeps := P.builder.keeps_any tokens g.productions
  -- Positions never decrease, so the first path that ends does so no earlier.
  induction he with
  | lost hc =>
    obtain ⟨symbols, hp⟩ := hp
    obtain ⟨_, he⟩ := h.rejects hp (.lost hc)
    cases he
  | empty hc => exact Or.inr ⟨_, List.mem_cons_self, le_rfl⟩
  | exhausted _ hd hne =>
    subst hk
    exact absurd hd hne
  | @next store store₁ store₂ store₃ p q k token actions others action es es' hc hd hm _ _ ihq _ =>
    have hpq : P.MovesTo tokens p q := ⟨_, _, _, _, _, hc, mem_of_drop hd, hm⟩
    have hle : p.position ≤ q.position := by
      have hposition := hpq.position_cases
      omega
    rw [accepted_append, rejections_append]
    rcases ihq rfl (Stands.movesTo h.toConstructed hkeeps hp hpq) with hne | ⟨r, hr, hlt⟩
    · exact Or.inl (List.append_ne_nil_of_left_ne_nil hne _)
    · exact Or.inr ⟨r, List.mem_append_left _ hr, hle.trans hlt⟩
  | accepted => exact Or.inl (List.cons_ne_nil _ _)
  | rejected hc hd hm _ _ =>
    obtain ⟨symbols, hp⟩ := hp
    obtain rfl := h.refused hp hc (mem_of_drop hd) hm
    exact Or.inr ⟨_, List.mem_cons_self, le_rfl⟩

lemma TakesAll.spells_of_mem (h : P.TakesAll prefers g) (hsize : 0 < tokens.size)
    (hes : P.Explores tokens store (P.start store).path 0 store' es) {r : Nat × ε} (hr : r ∈ rejections es) :
    ∃ q symbols token, P.Spells tokens g q symbols ∧ q.position = r.1 ∧
      r.2 = P.builder.syntaxError token q.position := by
  obtain ⟨e, he, hvalue⟩ := List.mem_filterMap.mp hr
  cases e with
  | accepted => cases hvalue
  | rejected position reason =>
    obtain ⟨error, rfl, rfl⟩ := Option.map_eq_some_iff.mp hvalue
    obtain ⟨q, ⟨symbols, hq⟩, hposition, hrejects⟩ := hes.rejected_invariant
      (I := fun q => ∃ symbols, P.Spells tokens g q symbols) (fun _ _ => Spells.movesTo h.toConstructed)
      ⟨[], spells_start hsize store⟩ _ _ he
    obtain ⟨token, herror⟩ := h.rejects hq.toStands hrejects
    exact ⟨q, symbols, token, hq, hposition, Option.some.inj herror⟩

end Takes

section Follow

variable {τ ν κ ε δ : Type} {P : Parser τ ν κ ε δ} {tokens : Array τ} {prefers : List String} {g : Grammar}
  {store store' : δ} {es : List (Ending ν ε)}

lemma shift_end_notMem (h : g.WellNumbered) (hend : ∀ p ∈ g.productions, Symbol.term g.endTerminal ∉ p.rhs)
    (s u : Nat) : .shift u ∉ Construction.allActions g s g.endTerminal := by
  have hw := NumberedGrammar.ofGrammar_wellFormed h
  intro hmem
  obtain ⟨i, _, hn⟩ := NumberedGrammar.exists_item_of_goto? hw (Construction.shift_mem_allActions.mp hmem)
  obtain ⟨r, hr, hright⟩ := NumberedGrammar.exists_rule_at hn
  obtain ⟨p, hp, rfl⟩ := Array.mem_map.mp (Array.mem_of_getElem? hr)
  obtain ⟨s, hs, hnumber⟩ := List.mem_map.mp (List.mem_of_getElem? hright)
  have hrange : (Symbol.term g.endTerminal).InRange g.nonterminals.size := nofun
  obtain rfl := Grammar.number_inj (h.rhs_inRange hp s hs) hrange hnumber
  exact hend p hp hs

lemma Explores.follow_prefix (h : P.TakesAll prefers g)
    (hend : ∀ p ∈ g.productions, Symbol.term g.endTerminal ∉ p.rhs)
    (he : EndsOnce P.builder.terminal g.endTerminal tokens)
    (hes : P.Explores tokens store (P.start store).path 0 store' es) {word : Array Nat} {i : Nat}
    (hi : i < tokens.size) (hagree : ∀ j ≤ i, ∃ token, tokens[j]? = some token ∧ P.builder.terminal token = word[j]?)
    {c : Run.Configuration Nat} (hrun : Relation.ReflTransGen (Run.Steps g some word) ⟨0, [0], []⟩ c) :
    ∃ q store₁ store₂ es', P.Explores tokens store₁ q 0 store₂ es' ∧ es' ⊆ es ∧
      (∃ symbols, P.Stands tokens g (fun _ _ => True) q symbols) ∧
      (q.position = i + 1 ∨ q.position ≤ i ∧ q.Renders (fun _ _ => True) c) := by
  induction hrun with
  | refl =>
    exact ⟨_, _, _, _, hes, List.Subset.refl _, ⟨[], stands_start he.nonempty store⟩,
      Or.inr ⟨Nat.zero_le i, rfl, rfl, .nil⟩⟩
  | @tail c c' _ hstep ih =>
    obtain ⟨q, store₁, store₂, es', hq, hsub, hstands, hpast | ⟨hle, hrenders⟩⟩ := ih
    · exact ⟨q, store₁, store₂, es', hq, hsub, hstands, Or.inl hpast⟩
    · rw [hrenders.position_eq] at hle
      obtain ⟨token, htok, ht⟩ := hagree c.position hle
      have hlast : c'.position < tokens.size := by
        cases hstep with
        | shift hword hterm _ ha =>
          by_contra hge
          have hlast : P.builder.terminal token = some g.endTerminal :=
            (he.end_iff _ token htok).mpr (by dsimp only at hle hge ⊢; omega)
          rw [ht, hword, hterm] at hlast
          exact shift_end_notMem h.numbered hend _ _ (Option.some.inj hlast ▸ ha)
        | reduce => exact Nat.lt_of_le_of_lt hle hi
      have hany : P.builder.Renders tokens word fun _ _ => True := ⟨fun _ _ _ => trivial, fun _ _ => trivial⟩
      obtain ⟨q', store₃, store₄, es'', hm, hq', hsub', hrenders'⟩ := hq.follow h hany hrenders hstep hlast
        fun t hword => ⟨token, htok, ht.trans hword⟩
      refine ⟨q', store₃, store₄, es'', hq', List.Subset.trans hsub' hsub,
        Stands.movesTo h.toConstructed (P.builder.keeps_any tokens g.productions) hstands hm, ?_⟩
      have hposition := hm.position_cases
      rw [hrenders.position_eq] at hposition
      rcases Nat.lt_or_ge i q'.position with hlt | hge
      · exact Or.inl (by omega)
      · exact Or.inr ⟨hge, hrenders'⟩

lemma TakesAll.exists_farther (h : P.TakesAll prefers g)
    (hstart : ∀ p ∈ g.productions, Symbol.nonterm 0 ∉ p.rhs)
    (hend : ∀ p ∈ g.productions, Symbol.term g.endTerminal ∉ p.rhs)
    (he : EndsOnce P.builder.terminal g.endTerminal tokens)
    (hes : P.Explores tokens store (P.start store).path 0 store' es) (hnil : accepted es = []) {i : Nat}
    (hi : i < tokens.size) (hbegins : g.BeginsSentence P.builder.terminal (tokens.toList.take (i + 1))) :
    ∃ r ∈ rejections es, i < r.1 := by
  obtain ⟨w, ⟨first, tree, hfirst, hderives, rfl⟩, hprefix⟩ := hbegins
  have hword : (tree.leaves ++ [g.endTerminal]).toArray.toList = tree.leaves ++ [g.endTerminal] := rfl
  obtain ⟨top, below, hrun, ha⟩ := Run.exists_run h.numbered hstart hfirst hderives hword rfl
  have hagree : ∀ j ≤ i, ∃ token, tokens[j]? = some token ∧
      P.builder.terminal token = (tree.leaves ++ [g.endTerminal]).toArray[j]? := by
    intro j hj
    have htok := Array.getElem?_eq_getElem (Nat.lt_of_le_of_lt hj hi)
    refine ⟨_, htok, ?_⟩
    have hget := List.prefix_iff_getElem?.mp hprefix j (by simp; omega)
    rw [List.getElem_map, List.getElem_take, Array.getElem_toList, List.getElem?_map, Option.map_eq_some_iff] at hget
    obtain ⟨t, ht, hterm⟩ := hget
    rw [List.getElem?_toArray, ht, hterm]
  obtain ⟨q, _, _, es', hq, hsub, hstands, hpast | ⟨hle, hrenders⟩⟩ := hes.follow_prefix h hend he hi hagree hrun
  · rcases h.exists_ending hq rfl hstands with hne | ⟨r, hr, hlt⟩
    · exact absurd (List.eq_nil_of_subset_nil (hnil ▸ accepted_subset hsub)) hne
    · exact ⟨r, rejections_subset hsub hr, by omega⟩
  · -- The run is at its end, where its tree is accepted.
    rw [hrenders.position_eq] at hle
    obtain ⟨token, htok, hterm⟩ := hagree _ hle
    dsimp only at hterm
    rw [List.getElem?_toArray, List.getElem?_concat_length] at hterm
    obtain ⟨value, _, hmem⟩ := hq.follow_accept h hrenders rfl rfl ha htok hterm
    have hvalue : value ∈ accepted es := List.mem_filterMap.mpr ⟨_, hsub hmem, rfl⟩
    rw [hnil] at hvalue
    cases hvalue

/-- An error is reported at the first token with which no sentence goes on: the tokens before it
begin a sentence, with it they do not. -/
theorem parse_error_position {P : Parser τ ν κ Nat δ} {text : String} {options : Options} {K : Construction}
    (hK : construct text options = .ok K) (hkept : ∀ c ∈ K.conflicts, c.resolution ≠ .preferShift)
    (hstart : ∀ p ∈ K.grammar.productions, Symbol.nonterm 0 ∉ p.rhs)
    (hproductive : ∀ n < K.grammar.nonterminals.size,
      ∃ tree, ParseTree.Derives some K.grammar.productions (.nonterm n) tree)
    (hT : P.table = K.table) (htakes : P.builder.NeverRejects)
    (hindex : ∀ token i, P.builder.syntaxError token i = i)
    (he : EndsOnce P.builder.terminal K.table.endMark tokens) {before : Stats} {store : δ} {i : Nat}
    (hp : (P.parse before store tokens).result = .error (.noParse i)) :
    i < tokens.size ∧ K.grammar.BeginsSentence P.builder.terminal (tokens.toList.take i) ∧
      ¬K.grammar.BeginsSentence P.builder.terminal (tokens.toList.take (i + 1)) := by
  obtain ⟨rules, hrules⟩ := construct_rules hK
  obtain ⟨g, hg, rfl⟩ := construct_ok hK
  have h : P.TakesAll options.preferShift g := ⟨⟨hT, hg⟩, htakes, hkept⟩
  have hend := Grammar.ofRules_end_notMem hrules
  obtain ⟨store', es, hes, hnil, hdeepest⟩ := parse_noParse hp
  have hhere : (rejections es).foldl farther none ≠ none := by
    intro hnone
    rcases h.exists_ending hes rfl ⟨[], stands_start he.nonempty store⟩ with hne | ⟨r, hr, _⟩
    · exact hne hnil
    · rw [foldl_farther_eq_none hnone] at hr
      cases hr
  obtain ⟨position, hfarthest⟩ := hdeepest.resolve_right fun hnone => hhere hnone.1
  obtain ⟨earlier, later, hsplit, hearlier, hlater⟩ := foldl_farther_eq_some hfarthest
  have hmem : (position, i) ∈ rejections es := by rw [hsplit]; simp
  obtain ⟨q, symbols, token, hq, rfl, hi⟩ := h.spells_of_mem he.nonempty hes hmem
  rw [hindex] at hi
  dsimp only at hi
  subst hi
  refine ⟨hq.position_lt, hq.beginsSentence h.toConstructed (Grammar.productive_of_trees hproductive),
    fun hbegins => ?_⟩
  obtain ⟨r, hr, hlt⟩ := h.exists_farther hstart hend he hes hnil hq.position_lt hbegins
  rw [hsplit, List.mem_append, List.mem_cons] at hr
  rcases hr with hr | rfl | hr
  · have hle := hearlier r hr
    omega
  · exact absurd hlt (Nat.lt_irrefl _)
  · have hle := hlater r hr
    omega

end Follow

def twofoldLocator : Parser Nat (ParseTree Nat) Unit Nat Unit where
  table := (Construction.ofGrammar [] twofold).table
  builder := .trees some fun _ i => i

theorem parse_error_position_twofold : (twofoldLocator.parse {} () #[0, 0, 1]).result = .error (.noParse 1) ∧
    twofold.BeginsSentence some [0] ∧ ¬twofold.BeginsSentence some [0, 0] := by
  have hparse : (twofoldLocator.parse {} () #[0, 0, 1]).result = .error (.noParse 1) := by decide +kernel
  have hends : EndsOnce some 1 #[0, 0, 1] := by
    refine ⟨by decide, fun i token ht => ?_⟩
    rcases i with _ | _ | _ | i
    · cases ht
      decide
    · cases ht
      decide
    · cases ht
      decide
    · cases ht
  have hkept : ∀ c ∈ (Construction.ofGrammar [] twofold).conflicts, c.resolution ≠ .preferShift :=
    fun c hc hr => absurd (Construction.preferred_of_conflict hc hr) List.not_mem_nil
  have hproductive : ∀ n < twofold.nonterminals.size,
      ∃ tree, ParseTree.Derives some twofold.productions (.nonterm n) tree := by
    have hword : ParseTree.Derives some twofold.productions (.nonterm 1)
        (.node ⟨1, "s1", 1, 1, [.term 0]⟩ [.leaf 0]) :=
      .node (p := ⟨1, "s1", 1, 1, [.term 0]⟩) (Array.mem_of_getElem? (i := 1) rfl) (.cons (.leaf rfl) .nil)
    intro n hn
    rcases n with _ | _ | n
    · exact ⟨_, .node (p := ⟨0, "start", 0, 1, [.nonterm 1]⟩) (Array.mem_of_getElem? (i := 0) rfl)
        (.cons hword .nil)⟩
    · exact ⟨_, hword⟩
    · exact absurd hn (by change ¬n + 2 < 2; omega)
  have hh := parse_error_position (P := twofoldLocator) construct_twofold hkept twofold_isolated hproductive rfl
    (Builder.neverRejects_trees _ _) (fun _ _ => rfl) hends hparse
  exact ⟨hparse, hh.2⟩

end Search.Parser

end Ramify
