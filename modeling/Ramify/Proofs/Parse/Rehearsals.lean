import Ramify.Proofs.Parse.Uniqueness
import Ramify.Proofs.Search.Restriction

/-! The path of a parse. The actions that build a tree are those of one path, if the table keeps the reductions
that make its nodes; and what the path carries is what the builder makes of these actions alone,
without the table. -/

namespace Ramify

structure Load (ν κ δ : Type) where
  position : Nat
  values : List ν
  context : κ
  store : δ

namespace Builder

variable {τ ν κ ε δ : Type} (B : Builder τ ν κ ε δ) (productions : Array Production) (tokens : Array τ)

def perform (l : Load ν κ δ) : Deed → Option (Load ν κ δ)
  | .shift =>
    match tokens[l.position]? with
    | none => none
    | some token =>
      match B.shift l.store l.context token l.position with
      | (store, .ok (context, value)) => some ⟨l.position + 1, value :: l.values, context, store⟩
      | (_, .error _) => none
  | .reduce index =>
    match productions[index]? with
    | none => none
    | some p =>
      match B.reduce l.store l.context p (l.values.take p.rhs.length).reverse with
      | (store, .ok (context, value)) => some ⟨l.position, value :: l.values.drop p.rhs.length, context, store⟩
      | (_, .error _) => none
  | .accept => none

def rehearse (store : δ) (deeds : List Deed) : Option (Load ν κ δ) :=
  deeds.foldlM (B.perform productions tokens) ⟨0, [], B.initial, store⟩

variable {B productions tokens} {l l' : Load ν κ δ}

lemma perform_shift (h : B.perform productions tokens l .shift = some l') :
    ∃ token context value store, tokens[l.position]? = some token ∧
      B.shift l.store l.context token l.position = (store, .ok (context, value)) ∧
      l' = ⟨l.position + 1, value :: l.values, context, store⟩ := by
  rw [perform] at h
  split at h
  · cases h
  · rename_i token htok
    split at h
    · rename_i store context value hb
      exact ⟨token, context, value, store, htok, hb, (Option.some.inj h).symm⟩
    · cases h

lemma perform_reduce {index : Nat} (h : B.perform productions tokens l (.reduce index) = some l') :
    ∃ p context value store, productions[index]? = some p ∧
      B.reduce l.store l.context p (l.values.take p.rhs.length).reverse = (store, .ok (context, value)) ∧
      l' = ⟨l.position, value :: l.values.drop p.rhs.length, context, store⟩ := by
  rw [perform] at h
  split at h
  · cases h
  · rename_i p hp
    split at h
    · rename_i store context value hb
      exact ⟨p, context, value, store, hp, hb, (Option.some.inj h).symm⟩
    · cases h

lemma rehearse_nil (store : δ) : B.rehearse productions tokens store [] = some ⟨0, [], B.initial, store⟩ := rfl

lemma rehearse_concat (store : δ) (deeds : List Deed) (deed : Deed) :
    B.rehearse productions tokens store (deeds ++ [deed]) =
      (B.rehearse productions tokens store deeds).bind (B.perform productions tokens · deed) := by
  rw [rehearse, List.foldlM_append]
  refine congrArg (Option.bind _) (funext fun l => ?_)
  rw [List.foldlM_cons]
  exact Option.bind_fun_some _

end Builder

namespace Run

open LR

variable {τ : Type} {g : Grammar} {terminal : τ → Option Nat} {tokens : Array τ} {c c' : Configuration τ}

def Configuration.Reads (tokens : Array τ) (c : Configuration τ) : Prop :=
  ParseTree.forestLeaves c.values.reverse = tokens.toList.take c.position

def Configuration.ends (c : Configuration τ) : List (Production × Nat) := ParseTree.forestEnds 0 c.values.reverse

lemma Steps.reads (h : Steps g terminal tokens c c') (hc : c.Reads tokens) : c'.Reads tokens := by
  cases h with
  | shift htok _ _ _ =>
    rw [Configuration.Reads] at hc ⊢
    rw [List.reverse_cons, ParseTree.forestLeaves_append, hc, ParseTree.forestLeaves_singleton, ParseTree.leaves,
      List.take_add_one, Array.getElem?_toList, htok]
    rfl
  | @reduce _ _ _ _ _ _ _ values _ p _ _ _ _ _ _ _ =>
    rw [Configuration.Reads] at hc ⊢
    rw [← hc, reverse_split p.rhs.length values, ParseTree.forestLeaves_append, List.reverse_cons,
      ParseTree.forestLeaves_append, ParseTree.forestLeaves_singleton, ParseTree.leaves]

lemma Steps.ends_subset (h : Steps g terminal tokens c c') : c.ends ⊆ c'.ends := by
  cases h with
  | shift _ _ _ _ =>
    rw [Configuration.ends, Configuration.ends, List.reverse_cons, ParseTree.forestEnds_append]
    exact List.subset_append_left _ _
  | @reduce _ _ _ _ _ _ _ values _ p _ _ _ _ _ _ _ =>
    rw [Configuration.ends, Configuration.ends, reverse_split p.rhs.length values, ParseTree.forestEnds_append,
      List.reverse_cons, ParseTree.forestEnds_append, ParseTree.forestEnds_singleton, ParseTree.ends]
    refine List.append_subset.mpr ⟨List.subset_append_left _ _, fun e he => ?_⟩
    exact List.mem_append_right _ (List.mem_cons_of_mem _ he)

lemma mem_ends_reduced {i u : Nat} {states : List Nat} {values : List (ParseTree τ)} {p : Production}
    (hreads : Configuration.Reads tokens ⟨i, states, values⟩) (hi : i ≤ tokens.size) : (p, i) ∈ Configuration.ends
      ⟨i, u :: states.drop p.rhs.length, .node p (values.take p.rhs.length).reverse :: values.drop p.rhs.length⟩ := by
  have hlen := congrArg List.length hreads
  rw [List.length_take_of_le (by rwa [Array.length_toList])] at hlen
  dsimp only at hlen
  rw [reverse_split p.rhs.length values, ParseTree.forestLeaves_append, List.length_append] at hlen
  rw [Configuration.ends, List.reverse_cons, ParseTree.forestEnds_append, ParseTree.forestEnds_singleton,
    ParseTree.ends, Nat.zero_add, hlen]
  exact List.mem_append_right _ List.mem_cons_self

def Configuration.deeds (c : Configuration τ) : List Deed := ParseTree.forestDeeds c.values.reverse

lemma deeds_leaf {i j : Nat} {states states' : List Nat} {token : τ} {values : List (ParseTree τ)} :
    Configuration.deeds ⟨j, states', .leaf token :: values⟩ = Configuration.deeds ⟨i, states, values⟩ ++ [.shift] := by
  rw [Configuration.deeds, List.reverse_cons, ParseTree.forestDeeds_append, ParseTree.forestDeeds_singleton,
    ParseTree.deeds]
  rfl

lemma deeds_node {i j : Nat} {states states' : List Nat} {p : Production} {values : List (ParseTree τ)} :
    Configuration.deeds ⟨j, states', .node p (values.take p.rhs.length).reverse :: values.drop p.rhs.length⟩ =
      Configuration.deeds ⟨i, states, values⟩ ++ [.reduce p.index] := by
  rw [Configuration.deeds, Configuration.deeds, reverse_split p.rhs.length values, List.reverse_cons,
    ParseTree.forestDeeds_append, ParseTree.forestDeeds_append, ParseTree.forestDeeds_singleton, ParseTree.deeds,
    List.append_assoc]

lemma Steps.exists_deed (h : Steps g terminal tokens c c') : ∃ deed, c'.deeds = c.deeds ++ [deed] := by
  cases h with
  | shift _ _ _ _ => exact ⟨_, deeds_leaf⟩
  | reduce _ _ _ _ _ _ _ => exact ⟨_, deeds_node⟩

lemma exists_step_of_prefix (h : Relation.ReflTransGen (Steps g terminal tokens) ⟨0, [0], []⟩ c) {deeds : List Deed} {deed : Deed}
    (hpre : deeds ++ [deed] <+: c.deeds) : ∃ c₁ c₂, Relation.ReflTransGen (Steps g terminal tokens) ⟨0, [0], []⟩ c₁ ∧
      Steps g terminal tokens c₁ c₂ ∧ c₁.deeds = deeds ∧ c₂.deeds = deeds ++ [deed] ∧ c₂.ends ⊆ c.ends := by
  induction h with
  | refl =>
    have hnil := List.prefix_nil.mp hpre
    exact absurd hnil (List.append_ne_nil_of_right_ne_nil _ (List.cons_ne_nil _ _))
  | @tail c c' hrun hstep ih =>
    obtain ⟨d, hd⟩ := hstep.exists_deed
    rw [hd] at hpre
    rcases List.prefix_concat_iff.mp hpre with heq | hpre
    · have hdeeds := List.append_inj_left' heq rfl
      exact ⟨c, c', hrun, hstep, hdeeds.symm, hd.trans heq.symm, fun _ h => h⟩
    · obtain ⟨c₁, c₂, hrun₁, hstep₁, h₁, h₂, hends⟩ := ih hpre
      exact ⟨c₁, c₂, hrun₁, hstep₁, h₁, h₂, fun e he => hstep.ends_subset (hends he)⟩

lemma reads_of_run (h : Relation.ReflTransGen (Steps g terminal tokens) ⟨0, [0], []⟩ c) : c.Reads tokens := by
  induction h with
  | refl => rfl
  | tail _ hs ih => exact hs.reads ih

lemma exists_run_of_parse (hg : g.WellNumbered) (hstart : ∀ p ∈ g.productions, Symbol.nonterm 0 ∉ p.rhs)
    (he : EndsOnce terminal g.endTerminal tokens) {tree : ParseTree τ} (ht : tree.IsParse terminal g tokens) :
    ∃ c top below token, Relation.ReflTransGen (Steps g terminal tokens) ⟨0, [0], []⟩ c ∧ c.deeds = tree.deeds ∧
      c.ends = tree.ends 0 ∧ c.states = top :: below ∧ tokens[c.position]? = some token ∧
      terminal token = some g.endTerminal ∧ .accept ∈ Construction.allActions g top g.endTerminal := by
  obtain ⟨first, hfirst, hderives, hleaves⟩ := ht
  obtain ⟨token, htoken, htokens⟩ := he.toList_eq
  rw [← hleaves] at htokens
  obtain ⟨top, below, hrun, ha⟩ := exists_run hg hstart hfirst hderives htokens htoken
  refine ⟨_, top, below, token, hrun, ParseTree.forestDeeds_singleton tree, ParseTree.forestEnds_singleton 0 tree, rfl,
    ?_, htoken, ha⟩
  rw [← Array.getElem?_toList, htokens, List.getElem?_concat_length]

end Run

namespace Search

open LR

variable {τ ν κ ε δ : Type}

def Path.load (p : Path ν κ) (store : δ) : Load ν κ δ := ⟨p.position, p.values, p.context, store⟩

namespace Parser

variable {P : Parser τ ν κ ε δ} {tokens : Array τ} {prefers : List String} {g : Grammar} {p : Path ν κ}
  {c c' : Run.Configuration τ} {store : δ} {l : Load ν κ δ} {deeds : List Deed} {deed : Deed}

variable (prefers g) in
def Keeps (terminal : τ → Option Nat) (tokens : Array τ) (nodes : List (Production × Nat)) : Prop :=
  ∀ s t index production stop token, .reduce index ∈ Construction.allActions g s t →
    g.productions[index]? = some production → tokens[stop]? = some token → terminal token = some t →
    (production, stop) ∈ nodes → .reduce index ∈ (Construction.cellAt prefers g s t).actions

lemma Keeps.subset {terminal : τ → Option Nat} {nodes nodes' : List (Production × Nat)}
    (h : Keeps prefers g terminal tokens nodes) (hsub : nodes' ⊆ nodes) : Keeps prefers g terminal tokens nodes' :=
  fun s t index production stop token ha hprod htok ht hmem => h s t index production stop token ha hprod htok ht (hsub hmem)

def Any (_ : ν) (_ : ParseTree τ) : Prop := True

lemma Constructed.cell_eq (h : P.Constructed prefers g) {s t : Nat} {states : List Nat} {token : τ}
    {action : Action} (hp : p.states = s :: states) (htok : tokens[p.position]? = some token)
    (ht : P.builder.terminal token = some t) (ha : action ∈ Construction.allActions g s t) :
    P.cell tokens p = some (token, (Construction.cellAt prefers g s t).actions) := by
  have hpos := (Array.getElem?_eq_some_iff.mp htok).1
  obtain ⟨hs, hlt⟩ := Construction.bounds_of_mem_allActions (NumberedGrammar.ofGrammar_wellFormed h.numbered) ha
  have hlt' : t < (NumberedGrammar.ofGrammar g).terminals := by
    change t < g.nonterminals.size + g.terminals.size - g.nonterminals.size
    omega
  rw [cell, hp, Nat.min_eq_left (by omega), htok]
  dsimp only
  rw [options, ht]
  dsimp only
  rw [h.table_eq, Construction.table_actionsAt hs, if_pos hlt']

lemma Constructed.exists_action (h : P.Constructed prefers g) (hp : p.Renders Any c) (hreads : c.Reads tokens)
    (hstep : Run.Steps g P.builder.terminal tokens c c') (hkeeps : Keeps prefers g P.builder.terminal tokens c'.ends)
    (hdeed : c'.deeds = c.deeds ++ [deed]) : ∃ token actions action, P.cell tokens p = some (token, actions) ∧
      action ∈ actions ∧ action.deed = deed ∧
      ∀ {store l}, P.builder.perform P.table.productions tokens (p.load store) deed = some l →
        ∃ q, P.move tokens store p token action = (l.store, .next q) ∧ q.load l.store = l ∧ q.Renders Any c' := by
  have hw := NumberedGrammar.ofGrammar_wellFormed h.numbered
  obtain ⟨i, _, values, context⟩ := p
  obtain ⟨rfl, rfl, hvalues⟩ := hp
  cases hstep with
  | @shift i s t u states trees token htok ht hlast ha =>
    have hcell := h.cell_eq (p := ⟨i, s :: states, values, context⟩) rfl htok ht ha
    obtain rfl := List.singleton_inj.mp (List.append_cancel_left (Run.deeds_leaf.symm.trans hdeed))
    refine ⟨token, _, _, hcell, Cell.mem_ofActions ha nofun, rfl, fun hl => ?_⟩
    obtain ⟨token', context', value, store', htok', hb, rfl⟩ := Builder.perform_shift hl
    obtain rfl := Option.some.inj (htok.symm.trans htok')
    exact ⟨_, move_shift (Nat.lt_sub_of_add_lt hlast) hb, rfl, rfl, rfl, .cons trivial hvalues⟩
  | @reduce i s t u index exposed states trees token production htok ht hprod ha hexposed hle hgoto =>
    have hcell := h.cell_eq (p := ⟨i, s :: states, values, context⟩) rfl htok ht ha
    have hnode := Run.mem_ends_reduced (u := u) (p := production) hreads (Array.getElem?_eq_some_iff.mp htok).1.le
    have hkept := hkeeps s t index production i token ha hprod htok ht hnode
    have hindex := h.numbered.index_eq index production hprod
    obtain rfl := List.singleton_inj.mp (List.append_cancel_left (Run.deeds_node.symm.trans hdeed))
    refine ⟨token, _, _, hcell, hkept, congrArg Deed.reduce hindex.symm, fun hl => ?_⟩
    obtain ⟨production', context', value, store', hprod', hb, rfl⟩ := Builder.perform_reduce hl
    rw [h.productions_eq, hindex, hprod] at hprod'
    obtain rfl := Option.some.inj hprod'
    have htable : P.table.goto? exposed production.lhs = some u := by
      rw [h.table_eq, Construction.table_goto? hw,
        if_pos (h.numbered.lhs_lt _ (Array.mem_of_getElem? hprod)), hgoto]
    exact ⟨_, move_reduce (h.productions_eq.symm ▸ hprod) hexposed (hvalues.length_eq.symm ▸ hle) htable hb, rfl, rfl,
      rfl, .cons trivial (List.forall₂_drop _ hvalues)⟩

lemma Constructed.exists_path (h : P.Constructed prefers g)
    (hrun : Relation.ReflTransGen (Run.Steps g P.builder.terminal tokens) ⟨0, [0], []⟩ c)
    (hkeeps : Keeps prefers g P.builder.terminal tokens c.ends)
    (hl : P.builder.rehearse P.table.productions tokens store c.deeds = some l) :
    ∃ p, Relation.ReflTransGen (P.MovesTo tokens) (P.start store).path p ∧ p.load l.store = l ∧ p.Renders Any c := by
  induction hrun generalizing l with
  | refl =>
    obtain rfl := Option.some.inj hl
    exact ⟨_, .refl, rfl, rfl, rfl, .nil⟩
  | tail hrun hstep ih =>
    obtain ⟨deed, hdeed⟩ := hstep.exists_deed
    rw [hdeed, Builder.rehearse_concat] at hl
    obtain ⟨l₀, hl₀, hl⟩ := Option.bind_eq_some_iff.mp hl
    obtain ⟨p, hp, hload, hrenders⟩ := ih (hkeeps.subset hstep.ends_subset) hl₀
    obtain ⟨token, actions, action, hc, ha, _, hmove⟩ :=
      h.exists_action hrenders (Run.reads_of_run hrun) hstep hkeeps hdeed
    obtain ⟨q, hm, hq, hrenders'⟩ := hmove (hload.symm ▸ hl)
    exact ⟨q, hp.tail ⟨token, actions, action, _, _, hc, ha, hm⟩, hq, hrenders'⟩

section Parse

variable {tree : ParseTree τ}

lemma Constructed.exists_path_within (h : P.Constructed prefers g)
    (hstart : ∀ p ∈ g.productions, Symbol.nonterm 0 ∉ p.rhs)
    (he : EndsOnce P.builder.terminal g.endTerminal tokens) (hend : g.endTerminal ∉ Construction.preferred prefers g)
    (ht : tree.IsParse P.builder.terminal g tokens)
    (hkeeps : Keeps prefers g P.builder.terminal tokens (tree.ends 0)) (hpre : deeds ++ [deed] <+: tree.deeds ++ [.accept])
    (hl : P.builder.rehearse P.table.productions tokens store deeds = some l) :
    ∃ p token actions action, Relation.ReflTransGen (P.MovesTo tokens) (P.start store).path p ∧ p.load l.store = l ∧
      P.cell tokens p = some (token, actions) ∧ action ∈ actions ∧ action.deed = deed := by
  obtain ⟨c, top, below, token, hrun, hdeeds, hends, htop, htok, htoken, ha⟩ :=
    Run.exists_run_of_parse h.numbered hstart he ht
  rw [← hends] at hkeeps
  rw [← hdeeds] at hpre
  rcases List.prefix_concat_iff.mp hpre with heq | hpre
  · obtain ⟨rfl, hdeed⟩ := List.append_inj' heq rfl
    obtain rfl := List.singleton_inj.mp hdeed
    obtain ⟨p, hp, hload, hposition, hstates, _⟩ := h.exists_path hrun hkeeps hl
    refine ⟨p, token, _, _, hp, hload, h.cell_eq (hstates.trans htop) (hposition ▸ htok) htoken ha,
      Cell.mem_ofActions ha fun _ hprefers => absurd (List.contains_iff_mem.mp hprefers) hend, rfl⟩
  · obtain ⟨c₁, c₂, hrun, hstep, h₁, h₂, hsub⟩ := Run.exists_step_of_prefix hrun hpre
    have hkept := hkeeps.subset hsub
    obtain ⟨p, hp, hload, hrenders⟩ := h.exists_path hrun (hkept.subset hstep.ends_subset) (h₁.symm ▸ hl)
    obtain ⟨token, actions, action, hc, ha, hdeed, _⟩ :=
      h.exists_action hrenders (Run.reads_of_run hrun) hstep hkept (h₁.symm ▸ h₂)
    exact ⟨p, token, actions, action, hp, hload, hc, ha, hdeed⟩

lemma Constructed.accepts_rehearsed (h : P.Constructed prefers g)
    (hstart : ∀ p ∈ g.productions, Symbol.nonterm 0 ∉ p.rhs)
    (he : EndsOnce P.builder.terminal g.endTerminal tokens) (hend : g.endTerminal ∉ Construction.preferred prefers g)
    (ht : tree.IsParse P.builder.terminal g tokens)
    (hkeeps : Keeps prefers g P.builder.terminal tokens (tree.ends 0))
    (hl : P.builder.rehearse P.table.productions tokens store tree.deeds = some l) : P.Accepts tokens store l.values := by
  obtain ⟨p, token, actions, action, hp, hload, hc, ha, hdeed⟩ :=
    h.exists_path_within hstart he hend ht hkeeps (List.prefix_refl _) hl
  cases action with
  | accept => exact ⟨p, token, actions, hp, hc, ha, congrArg Load.values hload⟩
  | shift _ | reduce _ => cases hdeed

end Parse

end Parser

end Search

end Ramify
