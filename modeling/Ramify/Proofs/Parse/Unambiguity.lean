import Ramify.Proofs.Parse.Completeness
import Ramify.Proofs.Search.Tallies

namespace Ramify

namespace ParseTree

variable {τ τ' : Type}

mutual

def map (f : τ → τ') : ParseTree τ → ParseTree τ'
  | leaf token => leaf (f token)
  | node p children => node p (forestMap f children)

def forestMap (f : τ → τ') : List (ParseTree τ) → List (ParseTree τ')
  | [] => []
  | t :: ts => map f t :: forestMap f ts

end

variable {f : τ → τ'}

mutual

lemma leaves_map : ∀ t : ParseTree τ, (t.map f).leaves = t.leaves.map f
  | leaf _ => rfl
  | node _ children => by rw [map, leaves, leaves, forestLeaves_map children]

lemma forestLeaves_map : ∀ ts : List (ParseTree τ), forestLeaves (forestMap f ts) = (forestLeaves ts).map f
  | [] => rfl
  | t :: ts => by rw [forestMap, forestLeaves, forestLeaves, List.map_append, leaves_map t, forestLeaves_map ts]

end

mutual

lemma map_injective (hf : Function.Injective f) : ∀ {t u : ParseTree τ}, t.map f = u.map f → t = u
  | leaf _, leaf _, h => congrArg leaf (hf (leaf.inj h))
  | leaf _, node _ _, h => nomatch h
  | node _ _, leaf _, h => nomatch h
  | node _ _, node _ _, h => by
    obtain ⟨rfl, hc⟩ := node.inj h
    rw [forestMap_injective hf hc]

lemma forestMap_injective (hf : Function.Injective f) : ∀ {ts us : List (ParseTree τ)},
    forestMap f ts = forestMap f us → ts = us
  | [], [], _ => rfl
  | [], _ :: _, h => nomatch h
  | _ :: _, [], h => nomatch h
  | _ :: _, _ :: _, h => by
    obtain ⟨ht, hts⟩ := List.cons.inj h
    rw [map_injective hf ht, forestMap_injective hf hts]

end

section Derives

variable {terminal : τ → Option Nat} {terminal' : τ' → Option Nat} {productions : Array Production}

mutual

lemma Derives.map (hf : ∀ token, terminal' (f token) = terminal token) {s : Symbol} : ∀ {t : ParseTree τ},
    t.Derives terminal productions s → (t.map f).Derives terminal' productions s
  | .leaf token, h => by
    cases h with
    | leaf ht => exact .leaf ((hf token).trans ht)
  | .node p children, h => by
    cases h with
    | node hp hc => exact .node hp (forest_derives_map hf hc)

lemma forest_derives_map (hf : ∀ token, terminal' (f token) = terminal token) {ss : List Symbol} :
    ∀ {ts : List (ParseTree τ)}, List.Forall₂ (Derives terminal productions) ss ts →
      List.Forall₂ (Derives terminal' productions) ss (forestMap f ts)
  | [], h => by
    cases h with
    | nil => exact .nil
  | t :: ts, h => by
    cases h with
    | cons ht hts => exact .cons (ht.map hf) (forest_derives_map hf hts)

end

end Derives

end ParseTree

namespace LR

lemma Cell.exists_conflict_of_two (state t : Nat) {actions : List Action} (h : 1 < actions.length) :
    ∃ c, (ofActions state t false actions).conflict = some c ∧ c.resolution = .kept := by
  rw [ofActions, if_neg (Nat.not_le.mpr h)]
  refine ⟨_, rfl, ?_⟩
  dsimp only
  rw [Bool.and_false]
  rfl

namespace Construction

variable {g : Grammar}

lemma length_allActions_le_one (hg : g.WellNumbered) (hkept : (ofGrammar [] g).kept = []) (s t : Nat) :
    (allActions g s t).length ≤ 1 := by
  by_contra htwo
  obtain ⟨action, haction⟩ := List.exists_mem_of_length_pos (by omega : 0 < (allActions g s t).length)
  obtain ⟨hs, ht⟩ := Construction.bounds_of_mem_allActions (NumberedGrammar.ofGrammar_wellFormed hg) haction
  have ht' : t < (NumberedGrammar.ofGrammar g).terminals := by
    change t < g.nonterminals.size + g.terminals.size - g.nonterminals.size
    omega
  obtain ⟨c, hc, hr⟩ := Cell.exists_conflict_of_two s t (Nat.not_le.mp htwo)
  have hcell : (cellAt [] g s t).conflict = some c := hc
  have hmem : c ∈ (ofGrammar [] g).kept := List.mem_filter.mpr ⟨mem_conflicts hs ht' hcell, decide_eq_true hr⟩
  rw [hkept] at hmem
  cases hmem

lemma length_actionsAt_le_one (hg : g.WellNumbered) (hkept : (ofGrammar [] g).kept = []) (s t : Nat) :
    ((ofGrammar [] g).table.actionsAt s t).length ≤ 1 := by
  by_cases hs : s < (NumberedGrammar.ofGrammar g).collection.size
  · rw [table_actionsAt hs]
    split
    · exact Cell.ofActions_sublist.length_le.trans (length_allActions_le_one hg hkept s t)
    · exact Nat.zero_le _
  · rw [table_actionsAt_of_le (Nat.not_lt.mp hs)]
    exact Nat.zero_le _

end Construction

end LR

namespace Run

open LR

variable {τ : Type} {g : Grammar} {terminal : τ → Option Nat} {tokens : Array τ}

lemma mem_unique {α : Type} {l : List α} (h : l.length ≤ 1) {a b : α} (ha : a ∈ l) (hb : b ∈ l) : a = b := by
  match l, h with
  | [_], _ => exact (List.mem_singleton.mp ha).trans (List.mem_singleton.mp hb).symm

section Deterministic

variable (hone : ∀ s t, (Construction.allActions g s t).length ≤ 1)

include hone

lemma Steps.unique : Relator.RightUnique (Steps g terminal tokens) := by
  intro c c₁ c₂ h₁ h₂
  cases h₁ with
  | shift htok ht _ ha =>
    cases h₂ with
    | shift htok' ht' _ ha' =>
      cases htok.symm.trans htok'
      cases ht.symm.trans ht'
      cases mem_unique (hone _ _) ha ha'
      rfl
    | reduce htok' ht' _ ha' =>
      cases htok.symm.trans htok'
      cases ht.symm.trans ht'
      cases mem_unique (hone _ _) ha ha'
  | reduce htok ht hp ha he _ hg =>
    cases h₂ with
    | shift htok' ht' _ ha' =>
      cases htok.symm.trans htok'
      cases ht.symm.trans ht'
      cases mem_unique (hone _ _) ha ha'
    | reduce htok' ht' hp' ha' he' _ hg' =>
      cases htok.symm.trans htok'
      cases ht.symm.trans ht'
      cases mem_unique (hone _ _) ha ha'
      cases hp.symm.trans hp'
      cases he.symm.trans he'
      cases hg.symm.trans hg'
      rfl

lemma not_steps_of_accept {i s t : Nat} {states : List Nat} {values : List (ParseTree τ)} {token : τ}
    {c : Configuration τ} (htok : tokens[i]? = some token) (ht : terminal token = some t)
    (ha : .accept ∈ Construction.allActions g s t) : ¬Steps g terminal tokens ⟨i, s :: states, values⟩ c := by
  intro h
  cases h with
  | shift htok' ht' _ ha' =>
    cases htok.symm.trans htok'
    cases ht.symm.trans ht'
    cases mem_unique (hone _ _) ha ha'
  | reduce htok' ht' _ ha' =>
    cases htok.symm.trans htok'
    cases ht.symm.trans ht'
    cases mem_unique (hone _ _) ha ha'

lemma tree_unique_of_end (h : g.WellNumbered) (hstart : ∀ p ∈ g.productions, Symbol.nonterm 0 ∉ p.rhs)
    {first : Production} {t u : ParseTree τ} {token : τ} (hfirst : g.productions[1]? = some first)
    (ht : t.Derives terminal g.productions (.nonterm first.lhs))
    (hu : u.Derives terminal g.productions (.nonterm first.lhs)) (htu : t.leaves = u.leaves)
    (htoken : terminal token = some g.endTerminal) : t = u := by
  set word : Array τ := (t.leaves ++ [token]).toArray
  have hword : word.toList = t.leaves ++ [token] := rfl
  obtain ⟨top, below, hrun, ha⟩ := exists_run h hstart hfirst ht hword htoken
  obtain ⟨top', below', hrun', ha'⟩ := exists_run h hstart hfirst hu (htu ▸ hword) htoken
  rw [← htu] at hrun'
  have hend : word[t.leaves.length]? = some token := by
    rw [List.getElem?_toArray, List.getElem?_concat_length]
  have heq : (⟨t.leaves.length, top :: below, [t]⟩ : Configuration τ) = ⟨t.leaves.length, top' :: below', [u]⟩ := by
    rcases hrun.total_of_right_unique (Steps.unique hone) hrun' with hr | hr
    · rcases hr.cases_head with heq | ⟨_, hstep, _⟩
      · exact heq
      · exact absurd hstep (not_steps_of_accept hone hend htoken ha)
    · rcases hr.cases_head with heq | ⟨_, hstep, _⟩
      · exact heq.symm
      · exact absurd hstep (not_steps_of_accept hone hend htoken ha')
  exact (List.cons.inj (Configuration.mk.inj heq).2.2).1

lemma tree_unique (h : g.WellNumbered) (hstart : ∀ p ∈ g.productions, Symbol.nonterm 0 ∉ p.rhs)
    {first : Production} {t u : ParseTree τ} (hfirst : g.productions[1]? = some first)
    (ht : t.Derives terminal g.productions (.nonterm first.lhs))
    (hu : u.Derives terminal g.productions (.nonterm first.lhs)) (htu : t.leaves = u.leaves) : t = u := by
  let terminal' : Option τ → Option Nat := fun token => token.elim (some g.endTerminal) terminal
  have hend : terminal' none = some g.endTerminal := rfl
  refine ParseTree.map_injective (Option.some_injective τ) ?_
  refine tree_unique_of_end hone h hstart hfirst (ht.map (f := some) fun _ => rfl)
    (hu.map (f := some) fun _ => rfl) ?_ hend
  rw [ParseTree.leaves_map, ParseTree.leaves_map, htu]

end Deterministic

end Run

namespace Search.Parser

open LR

variable {τ ν κ ε δ : Type} {P : Parser τ ν κ ε δ} {tokens : Array τ} {S : State ν κ ε δ}

lemma Scores.checkpoints_eq {C D : Tally ν κ} {v : Verdict ε} (h : P.Scores C D v) :
    D.checkpoints = C.checkpoints ∧ D.saved = C.saved ∧ D.candidates.length ≤ C.candidates.length + 1 ∧
      (v = .proceed → D.candidates = C.candidates) := by
  cases h with
  | kept => exact ⟨rfl, rfl, Nat.le_succ _, fun _ => rfl⟩
  | accepted => exact ⟨rfl, rfl, Nat.le_refl _, nofun⟩
  | overfull => exact ⟨rfl, rfl, Nat.le_refl _, nofun⟩

section Deterministic

variable (hone : ∀ s t, (P.table.actionsAt s t).length ≤ 1)

include hone

variable (tokens) in
lemma step_scores (S : State ν κ ε δ) : P.Scores S.tally (P.step tokens S).1.tally (P.step tokens S).2 := by
  rcases P.step_cases tokens S with ⟨reason, hs⟩ | ⟨state, token, action, others, hd, hs⟩
  · rw [hs]
    exact .lost _ _
  · have hle : (P.options state token).length ≤ 1 := by
      rw [options]
      split
      · exact hone _ _
      · exact Nat.zero_le _
    have hlen := congrArg List.length hd
    rw [List.length_drop, List.length_cons] at hlen
    obtain rfl := List.eq_nil_of_length_eq_zero (show others.length = 0 by omega)
    rw [hs]
    exact act_scores S token _ action

variable (tokens) in
lemma run_checkpoints (fuel : Nat) (hS : S.checkpoints = []) :
    (P.run tokens fuel S).1.stats.checkpoints = S.stats.checkpoints ∧
      ((P.run tokens fuel S).2 = none → (P.run tokens fuel S).1.candidates.length ≤ S.candidates.length + 1) := by
  induction fuel generalizing S with
  | zero => exact ⟨rfl, fun h => by cases h⟩
  | succ fuel ih =>
    obtain ⟨hcheck, hsaved, hle, hsame⟩ := (step_scores tokens hone S.counted).checkpoints_eq
    rw [run_succ]
    rcases hs : P.step tokens S.counted with ⟨S₁, _ | reason | stop⟩
    · rw [hs] at hcheck hsaved hsame
      obtain ⟨hcount, hcand⟩ := ih (S := { S₁ with choice := 0 }) (hcheck.trans hS)
      have hcandidates : S₁.candidates = S.candidates := hsame rfl
      exact ⟨hcount.trans hsaved, fun hnone => hcandidates ▸ hcand hnone⟩
    · rw [hs] at hcheck hsaved hle
      have hr := tally_reject (P := P) S₁ reason
      have hnone : P.resume? (P.reject S₁ reason) = none := by
        rw [resume?, show (P.reject S₁ reason).checkpoints = [] from
          (congrArg Tally.checkpoints hr).trans (hcheck.trans hS)]
      dsimp only
      rw [hnone]
      refine ⟨(congrArg Tally.saved hr).trans hsaved, fun _ => ?_⟩
      rw [show (P.reject S₁ reason).candidates = S₁.candidates from congrArg Tally.candidates hr]
      exact hle
    · rw [hs] at hsaved
      exact ⟨hsaved, fun h => by cases h⟩

lemma parse_checkpoints (before : Stats) (store : δ) :
    (P.parse before store tokens).stats.checkpoints = (if tokens.isEmpty then before.checkpoints else 0) ∧
      ∀ found, (P.parse before store tokens).result = .ok found → ∃ value, found = [value] := by
  refine ⟨?_, fun found hf => ?_⟩
  · rw [parse]
    split
    · rfl
    · exact (run_checkpoints tokens hone _ rfl).1
  · have hne : tokens ≠ #[] := by
      rintro rfl
      cases hf
    rcases parse_result before store hne with ⟨_, _, _, hr⟩ | ⟨T, hT, hr, _⟩
    · rw [hf] at hr
      cases hr
    · have hcount := (run_checkpoints tokens hone P.limits.maxSteps (S := P.start store) rfl).2
      rw [hT] at hcount
      rw [hf] at hr
      rcases P.conclude_of_ne hne T with ⟨hsome, hk⟩ | ⟨_, _, hk⟩
      · rw [hk] at hr
        obtain rfl := Except.ok.inj hr
        obtain ⟨value, hvalue⟩ := List.length_eq_one_iff.mp
          (le_antisymm (hcount rfl) (List.length_pos_of_ne_nil hsome))
        exact ⟨value, by rw [hvalue, List.reverse_singleton]⟩
      · rw [hk] at hr
        cases hr

end Deterministic

end Search.Parser

namespace LR

open Search

/-- A grammar whose table is built without a preference and without a conflict derives no word
in two ways, and no search with its table ever has a choice. -/
theorem construct_unambiguous {text : String} {K : Construction} (hK : construct text ⟨[], .reject⟩ = .ok K)
    (hstart : ∀ p ∈ K.grammar.productions, Symbol.nonterm 0 ∉ p.rhs) :
    (∀ {τ : Type} (terminal : τ → Option Nat) (first : Production) (t u : ParseTree τ),
      K.grammar.productions[1]? = some first →
      t.Derives terminal K.grammar.productions (.nonterm first.lhs) →
      u.Derives terminal K.grammar.productions (.nonterm first.lhs) → t.leaves = u.leaves → t = u) ∧
    ∀ {τ ν κ ε δ : Type} (P : Parser τ ν κ ε δ) (tokens : Array τ) (before : Stats) (store : δ), P.table = K.table →
      (P.parse before store tokens).stats.checkpoints = (if tokens.isEmpty then before.checkpoints else 0) ∧
      ∀ found, (P.parse before store tokens).result = .ok found → ∃ value, found = [value] := by
  have hkept := kept_of_reject hK
  obtain ⟨g, hg, rfl⟩ := construct_ok hK
  have hone := Construction.length_allActions_le_one hg hkept
  refine ⟨fun terminal first t u hfirst ht hu htu => Run.tree_unique hone hg hstart hfirst ht hu htu, ?_⟩
  intro τ ν κ ε δ P tokens before store hT
  refine Parser.parse_checkpoints (fun s t => ?_) before store
  rw [hT]
  exact Construction.length_actionsAt_le_one hg hkept s t

def optional : Grammar where
  terminals := #["x", "end"]
  nonterminals := #["Start", "S"]
  productions := #[⟨0, "start", 0, 1, [.nonterm 1]⟩, ⟨1, "s1", 1, 1, []⟩, ⟨2, "s2", 1, 2, [.term 0]⟩]

def optionalParser : Parser Nat (ParseTree Nat) Unit Unit Unit where
  table := (Construction.ofGrammar [] optional).table
  builder := .trees some fun _ _ => ()

lemma construct_optional : construct "S ->\nS -> x" ⟨[], .reject⟩ = .ok (.ofGrammar [] optional) := by
  have hparse : Grammar.parse "S ->\nS -> x" = .ok optional := by decide +kernel
  have hkept : (Construction.ofGrammar [] optional).kept = [] := by decide +kernel
  rw [construct, hparse]
  dsimp only
  rw [Construction.check, hkept]
  rfl

theorem construct_unambiguous_optional : (∀ u : ParseTree Nat, u.Derives some optional.productions (.nonterm 1) →
      u.leaves = [0] → .node ⟨2, "s2", 1, 2, [.term 0]⟩ [.leaf 0] = u) ∧
    (optionalParser.parse {} () #[0, 1]).stats.checkpoints = 0 ∧
    ∃ value, (optionalParser.parse {} () #[0, 1]).result = .ok [value] := by
  have hh := construct_unambiguous construct_optional (by decide)
  have hparse : (optionalParser.parse {} () #[0, 1]).result = .ok [.node ⟨2, "s2", 1, 2, [.term 0]⟩ [.leaf 0]] := by
    decide +kernel
  obtain ⟨hcount, hfound⟩ := hh.2 optionalParser #[0, 1] {} () rfl
  obtain ⟨value, hvalue⟩ := hfound _ hparse
  have htree : (ParseTree.node ⟨2, "s2", 1, 2, [.term 0]⟩ [.leaf 0]).Derives some optional.productions (.nonterm 1) :=
    .node (p := ⟨2, "s2", 1, 2, [.term 0]⟩) (by simp [optional]) (.cons (.leaf rfl) .nil)
  refine ⟨fun u hu hleaves => ?_, hcount, value, hvalue ▸ hparse⟩
  exact hh.1 some ⟨1, "s1", 1, 1, []⟩ _ u rfl htree hu hleaves.symm

end LR

end Ramify
