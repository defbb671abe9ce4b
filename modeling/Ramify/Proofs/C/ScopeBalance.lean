import Ramify.Proofs.C.ContextEffects
import Ramify.Proofs.C.RenamedParses
import Ramify.Proofs.C.SketchedTexts
import Ramify.Proofs.C.TypedefNames

/-! The depth of the provisional scopes. On every path that a search of C follows or goes back to, one
scope is open for each brace of a block and for each keyword `for` on the stack, besides that of the
file. So what closes a scope never finds only that of the file, and at the end no other is open. -/

namespace Ramify.C

namespace Part

def isBlockOpen (V : Vocabulary) (part : Part) : Bool := part.category? V = some .blockOpen

def isFor (tokens : Array Token) (part : Part) : Bool :=
  match part.kind with
  | .terminal i => (tokens[i]?).any fun token => token.kind = .keyword .for_
  | .nonterminal _ => false

end Part

namespace Scopes

lemma depth_of_outer {s s' : Scopes} (h : s'.outer = s.outer) : s'.depth = s.depth :=
  congrArg (List.length · + 1) h

lemma exists_pop? {s : Scopes} (h : 1 < s.depth) : ∃ s', s.pop? = some s' := by
  obtain ⟨inner, _ | ⟨frame, outer⟩⟩ := s
  · exact absurd h (Nat.lt_irrefl 1)
  · exact ⟨_, rfl⟩

end Scopes

namespace Reader

open Rules Search

variable {R : Reader} {g : Grammar} {x : NamedSymbol} {t : Tree} {ts : List Tree}

variable (R) in
/-- The scopes that are open because of some parts of the text. -/
def opened (parts : List Part) : Nat :=
  parts.countP (Part.isBlockOpen R.vocabulary) + parts.countP (Part.isFor R.tokens)

lemma opened_cons (part : Part) (parts : List Part) : R.opened (part :: parts) =
    R.opened [part] + R.opened parts := by
  simp only [opened, List.countP_cons, List.countP_nil]
  omega

lemma opened_append (parts others : List Part) : R.opened (parts ++ others) = R.opened parts + R.opened others := by
  simp only [opened, List.countP_append]
  omega

lemma opened_reverse (parts : List Part) : R.opened parts.reverse = R.opened parts := by
  rw [opened, List.countP_reverse, List.countP_reverse, opened]

section Standard

variable (hV : R.vocabulary.Standard g)

include hV

lemma opened_of_spells (h : R.Spells x t) : R.opened [t.part] = if opens x then 1 else 0 := by
  cases h with
  | @leaf i span token ht =>
    have hfor : Part.isFor R.tokens (Tree.leaf i span).part = decide (token.kind = .keyword .for_) := by
      rw [Part.isFor, Tree.part]
      dsimp only
      rw [ht]
      rfl
    have hblock : Part.isBlockOpen R.vocabulary (Tree.leaf i span).part = false := rfl
    have hopens : opens (.term token.kind.terminal) = decide (token.kind = .keyword .for_) := by
      rw [opens, Bool.eq_iff_iff, beq_iff_eq, decide_eq_true_iff]
      exact ⟨kind_for, fun h => h ▸ rfl⟩
    simp [opened, hfor, hblock, hopens]
  | @node i r span annotations children hr hchildren ha =>
    have hfor : Part.isFor R.tokens (Tree.node (i + 1) span annotations children).part = false := rfl
    have hblock : Part.isBlockOpen R.vocabulary (Tree.node (i + 1) span annotations children).part =
        decide (categoryOf r.left = .blockOpen) := by
      rw [Part.isBlockOpen, ← hV.category_eq hr]
      exact decide_eq_decide.mpr Option.some_inj
    have hopens : opens (.nonterm r.left) = decide (categoryOf r.left = .blockOpen) := by
      rw [opens, Bool.eq_iff_iff, beq_iff_eq, decide_eq_true_iff]
      exact ⟨fun h => h ▸ rfl, fun h => (blockOpen_right (List.mem_of_getElem? hr) h).1⟩
    simp [opened, hfor, hblock, hopens]

lemma depth_after (h : R.Spells x t) (ctx : Context) :
    (R.checker.after ctx t).scopes.depth = ctx.scopes.depth + R.opened [t.part] := by
  rw [opened_of_spells hV h]
  cases hx : opens x with
  | false => exact Scopes.depth_of_outer (outer_after hV h hx ctx)
  | true =>
    cases x with
    | term name =>
      obtain rfl : name = "for" := eq_of_beq hx
      rw [after_for h]
      rfl
    | nonterm name =>
      obtain rfl : name = "BlockOpen" := eq_of_beq hx
      rw [after_blockOpen hV h]
      exact Scopes.depth_of_outer (outer_bindAll _ _ _)

lemma depth_afterAll (h : ∀ t ∈ ts, ∃ x, R.Spells x t) (ctx : Context) :
    (R.checker.afterAll ctx ts).scopes.depth = ctx.scopes.depth + R.opened (ts.map Tree.part) := by
  induction ts generalizing ctx with
  | nil => rfl
  | cons t ts ih =>
    obtain ⟨⟨x, hx⟩, hts⟩ := List.forall_mem_cons.mp h
    rw [Checker.afterAll, ih hts, depth_after hV hx, List.map_cons, opened_cons t.part (ts.map Tree.part),
      Nat.add_assoc]

end Standard

section Paths

variable {L : Parser Token Tree Context FrontError Unit} {q : Path Tree Context} {token : Token}
  {actions : List Action}

lemma opened_pos {part : Part} {parts : List Part} (h : R.opened [part] = 1) (hmem : part ∈ parts) : 0 < R.opened parts := by
  obtain ⟨before, behind, rfl⟩ := List.append_of_mem hmem
  rw [opened_append, opened_cons part behind, h]
  omega

section Depth

variable (hV : R.vocabulary.Standard g)

include hV

lemma Traces.depth_eq (hq : R.Traces L g R.SpellsNumber q) :
    q.context.scopes.depth = 1 + R.opened (q.values.map Tree.part) := by
  obtain ⟨symbols, hstands⟩ := hq.stands
  rw [hq.context_eq, depth_afterAll hV, List.map_reverse, opened_reverse]
  · rfl
  · exact fun t ht => hV.spells_of_stands hstands t (List.mem_reverse.mp ht)

variable (hL : L.Constructed preferShift g)

include hL

lemma opened_pos_of_closing {symbols : List Symbol} (hq : L.Stands R.tokens g R.SpellsNumber q symbols) {index : Nat}
    (hc : L.cell R.tokens q = some (token, actions)) (ha : Action.reduce index ∈ actions)
    (hclosing : R.vocabulary.category index = .compoundStatement ∨ R.vocabulary.role index = .forLoop) :
    0 < R.opened (q.values.map Tree.part) := by
  obtain ⟨production, _, _, hproduction, _, hrhs, _⟩ := hq.reduction hL hc ha
  obtain ⟨i, rfl⟩ := Nat.exists_eq_succ_of_ne_zero (FrontEnd.reduce_ne_zero hL hq hc ha)
  obtain ⟨r, hr⟩ := Grammar.ofRules_rule hV.grammar_eq hproduction
  obtain ⟨production', hproduction', _, hright, _⟩ := Grammar.ofRules_production hV.grammar_eq hr
  obtain rfl := Option.some.inj (hproduction.symm.trans hproduction')
  have hmem := List.mem_of_getElem? hr
  have hspells : List.Forall₂ R.Spells r.right (q.values.take production.rhs.length).reverse := by
    have htaken := List.forall₂_reverse_iff.mpr (List.forall₂_take production.rhs.length hq.good)
    rw [hrhs] at htaken
    exact spells_children (fun x hx => ⟨r, hmem, Or.inr hx⟩) (hright ▸ htaken)
  obtain ⟨first, xs, hfirst, hopens⟩ : ∃ first xs, r.right = first :: xs ∧ opens first = true := by
    rw [hV.category_eq hr, hV.role_eq hr] at hclosing
    rcases hclosing with hblock | hloop
    · rcases compound_right hmem hblock with hright | hright <;> exact ⟨_, _, hright, rfl⟩
    · obtain ⟨_, xs, hright, _⟩ := loop_right hmem hloop
      exact ⟨_, xs, hright, rfl⟩
  rw [hfirst] at hspells
  obtain ⟨t, _, ht, _, hchildren⟩ := List.forall₂_cons_left_iff.mp hspells
  have htree : t ∈ q.values := by
    refine List.mem_of_mem_take (i := production.rhs.length) (List.mem_reverse.mp ?_)
    rw [hchildren]
    exact List.mem_cons_self
  exact opened_pos (by rw [opened_of_spells hV ht, if_pos hopens]) (List.mem_map_of_mem htree)

lemma opened_of_accept {symbols : List Symbol} (hq : L.Stands R.tokens g R.SpellsNumber q symbols)
    (hc : L.cell R.tokens q = some (token, actions)) (ha : Action.accept ∈ actions) :
    R.opened (q.values.map Tree.part) = 0 := by
  obtain ⟨first, t, hfirst, _, hvalues, ht⟩ := hq.accept hL hV.isolated hc ha
  have hspells : R.Spells (n "TranslationUnit") t :=
    ht _ ⟨_, List.mem_of_getElem? (i := 0) rfl, Or.inl rfl⟩ (hV.first_eq hfirst).symm
  rw [hvalues, List.map_singleton, opened_of_spells hV hspells]
  rfl

end Depth

end Paths

end Reader

namespace FrontEnd

open Search

variable {E : FrontEnd} {tokens : Array Token} {g : Grammar} {S : State Nat Context FrontError Pool} {p : Path Nat Context}

variable (E tokens g) in
def Pictures (pool : Pool) (p : Path Nat Context) : Prop :=
  ∃ q, p.Views pool.Holds q ∧ (E.reader tokens).Traces (E.treeParser tokens) g (E.reader tokens).SpellsNumber q

section Standard

variable (hV : E.vocabulary.Standard g)

include hV

lemma pictures_of_reaches (hne : 0 < tokens.size) (hS : (E.parser tokens).Reaches tokens ((E.parser tokens).start {}) S) :
    ∀ p ∈ Parser.paths S, Pictures E tokens g S.store p := by
  have hB := (E.reader tokens).builds_tree
  refine hS.shared_invariant ?_ ?_ fun p hp => ?_
  · rintro pool _ p token action _ ⟨q, hviews, hq⟩
    exact ⟨q, hviews.mono fun _ _ hv => treeParser_mirrors.move_view token action hv, hq⟩
  · rintro pool pool' p p' token actions action ⟨q, hviews, hq⟩ hc ha hm
    obtain ⟨⟨m', hm', hnext⟩, _⟩ := treeParser_mirrors.of_move hviews hm
    cases hnext with
    | @next _ q' hviews' =>
      refine ⟨q', hviews', hq.movesTo (tree_constructed hV) (hB.keeps_spells hV) hB ?_⟩
      exact ⟨token, actions, action, (), (), (treeParser_mirrors.cell_eq hviews).trans hc, ha, hm'⟩
  · obtain rfl := List.mem_singleton.mp hp
    exact ⟨((E.treeParser tokens).start ()).path, ⟨rfl, rfl, rfl, .nil⟩, Reader.traces_start hB hne⟩

lemma Pictures.depth_eq {pool : Pool} (h : Pictures E tokens g pool p) :
    p.context.scopes.depth = 1 + (E.reader tokens).opened (p.values.map pool.part) := by
  obtain ⟨q, hviews, hq⟩ := h
  rw [← hviews.context_eq, hq.depth_eq hV, Pool.parts_eq hviews.values]

lemma Pictures.exists_pop? {pool : Pool} (h : Pictures E tokens g pool p) {token : Token} {actions : List Action}
    {index : Nat} (hc : (E.parser tokens).cell tokens p = some (token, actions)) (ha : Action.reduce index ∈ actions)
    (hclosing : E.vocabulary.category index = .compoundStatement ∨ E.vocabulary.role index = .forLoop) :
    ∃ s, p.context.scopes.pop? = some s := by
  have hdepth := h.depth_eq hV
  obtain ⟨q, hviews, hq⟩ := h
  obtain ⟨symbols, hstands⟩ := hq.stands
  have hpos := Reader.opened_pos_of_closing hV (tree_constructed hV) hstands
    ((treeParser_mirrors.cell_eq hviews).trans hc) ha hclosing
  refine Scopes.exists_pop? ?_
  rw [hdepth, Pool.parts_eq hviews.values]
  omega

lemma Pictures.depth_of_accept {pool : Pool} (h : Pictures E tokens g pool p) {token : Token} {actions : List Action}
    (hc : (E.parser tokens).cell tokens p = some (token, actions)) (ha : Action.accept ∈ actions) :
    p.context.scopes.depth = 1 := by
  have hdepth := h.depth_eq hV
  obtain ⟨q, hviews, hq⟩ := h
  obtain ⟨symbols, hstands⟩ := hq.stands
  have hzero := Reader.opened_of_accept hV (tree_constructed hV) hstands ((treeParser_mirrors.cell_eq hviews).trans hc) ha
  rw [hdepth, Pool.parts_eq hviews.values, hzero]

end Standard

lemma unread_of_reaches (hzero : tokens.size = 0)
    (hS : (E.parser tokens).Reaches tokens ((E.parser tokens).start {}) S) (hp : p ∈ Parser.paths S) :
    p.context = {} ∧ p.values = [] ∧ (E.parser tokens).cell tokens p = none := by
  have hcell : ∀ p, (E.parser tokens).cell tokens p = none := by
    intro p
    rw [Parser.cell, Array.getElem?_eq_none_iff.mpr (hzero ▸ Nat.zero_le _)]
    cases p.states <;> rfl
  have hnil : p.context = {} ∧ p.values = [] := by
    refine hS.invariant (I := fun p => p.context = {} ∧ p.values = []) ?_ ?_ p hp
    · rintro p q _ ⟨_, _, _, _, _, hc, _, _⟩
      exact absurd (hc.symm.trans (hcell p)) (Option.some_ne_none _)
    · rintro p hp
      obtain rfl := List.mem_singleton.mp hp
      exact ⟨rfl, rfl⟩
  exact ⟨hnil.1, hnil.2, hcell p⟩

end FrontEnd

open Search in
/-- The provisional scopes are balanced on every path, whatever was tried before: besides that of the file one
scope is open for each brace of a block and each keyword `for` on the stack. Where a reduction closes a scope,
there is one to close, and where a path is accepted all have been closed. -/
theorem scopes_balanced {V : Vocabulary} (hV : standard = some V) (config : Config) {tokens : Array Token}
    {S : State Nat Context FrontError Pool}
    (hS : ((FrontEnd.mk V config).parser tokens).Reaches tokens (((FrontEnd.mk V config).parser tokens).start {}) S)
    {p : Path Nat Context} (hp : p ∈ Parser.paths S) :
    p.context.scopes.depth = 1 + p.values.countP (fun id => (S.store.part id).isBlockOpen V) +
      p.values.countP (fun id => (S.store.part id).isFor tokens) ∧
    ∀ token actions, ((FrontEnd.mk V config).parser tokens).cell tokens p = some (token, actions) →
      (∀ index, Action.reduce index ∈ actions →
        V.category index = .compoundStatement ∨ V.category index = .iterationStatement ∧ V.role index = .forLoop →
          ∃ s, p.context.scopes.pop? = some s) ∧
      (Action.accept ∈ actions → p.context.scopes.depth = 1) := by
  obtain ⟨g, hg⟩ := standard_eq hV
  rcases Nat.eq_zero_or_pos tokens.size with hzero | hne
  · obtain ⟨hcontext, hvalues, hcell⟩ := FrontEnd.unread_of_reaches hzero hS hp
    rw [hcontext, hvalues, hcell]
    exact ⟨rfl, nofun⟩
  · have hpictures := FrontEnd.pictures_of_reaches (E := ⟨V, config⟩) hg hne hS p hp
    refine ⟨?_, fun token actions hc => ⟨fun index ha hclosing => ?_, fun ha => hpictures.depth_of_accept hg hc ha⟩⟩
    · rw [hpictures.depth_eq hg, Reader.opened, List.countP_map, List.countP_map, Nat.add_assoc]
      rfl
    · exact hpictures.exists_pop? hg hc ha (hclosing.imp_right And.right)

/-- Behind the body of the loop three scopes are open, and the innermost can be closed; where the text is accepted
one is open. -/
theorem scopes_balanced_loop : ∃ V L, standard = some V ∧ let P := (FrontEnd.mk V { limits := L }).parser loopTokens
    (∃ S token actions index scopes, P.Reaches loopTokens (P.start {}) S ∧ P.cell loopTokens S.path = some (token, actions) ∧
      .reduce index ∈ actions ∧ V.role index = .forLoop ∧ S.path.context.scopes.depth = 3 ∧
      S.path.values.countP (fun id => (S.store.part id).isBlockOpen V) = 1 ∧
      S.path.values.countP (fun id => (S.store.part id).isFor loopTokens) = 1 ∧
      S.path.context.scopes.pop? = some scopes) ∧
    ∃ S token actions, P.Reaches loopTokens (P.start {}) S ∧ P.cell loopTokens S.path = some (token, actions) ∧
      .accept ∈ actions ∧ S.path.context.scopes.depth = 1 := by
  obtain ⟨V, _, hV, _⟩ := exists_vocabulary
  obtain ⟨g, hg⟩ := standard_eq hV
  have hne : 0 < loopTokens.size := by decide
  obtain ⟨L, hL⟩ := FrontEnd.exists_limits (E := FrontEnd.mk V {}) hg hne
  obtain ⟨T, hT⟩ := FrontEnd.exists_run (E := FrontEnd.mk V { limits := L }) hg hne (hL L le_rfl le_rfl)
  refine ⟨V, L, hV, ?_, ?_⟩
  · obtain ⟨S, token, actions, action, l, hS, hc, ha, hshows, hvalues⟩ := FrontEnd.exists_reached_of_previews
      (E := FrontEnd.mk V { limits := L }) hg loop_previews List.mem_cons_self hT
    cases action with
    | reduce index =>
      rw [Action.deed, loopClosing, decide_eq_true_eq] at hshows
      obtain ⟨hrole, hcategory, hblocks, hloops⟩ := hshows
      rw [hg.role_outline] at hrole
      rw [hg.category_outline] at hcategory
      have hcount : ∀ f : Part → Bool, S.path.values.countP (fun id => f (S.store.part id)) =
          l.values.countP (fun t => f t.part) := by
        intro f
        have hcount := congrArg (List.countP f) hvalues
        rwa [List.countP_map, List.countP_map] at hcount
      replace hblocks : S.path.values.countP (fun id => (S.store.part id).isBlockOpen V) = 1 := by
        simp only [hg.part_category?_outline] at hblocks
        exact (hcount _).trans hblocks
      replace hloops : S.path.values.countP (fun id => (S.store.part id).isFor loopTokens) = 1 := by
        refine (hcount _).trans (Eq.trans (List.countP_congr fun t _ => ?_) hloops)
        cases t <;> exact Iff.rfl
      obtain ⟨hdepth, hcell⟩ := scopes_balanced hV _ hS List.mem_cons_self
      obtain ⟨scopes, hpop⟩ := (hcell token actions hc).1 index ha (Or.inr ⟨hcategory, hrole⟩)
      rw [hblocks, hloops] at hdepth
      exact ⟨S, token, actions, index, scopes, hS, hc, ha, hrole, hdepth, hblocks, hloops, hpop⟩
    | shift _ => cases hshows
    | accept => cases hshows
  · obtain ⟨S, token, actions, action, l, hS, hc, ha, hshows, _⟩ := FrontEnd.exists_reached_of_previews
      (E := FrontEnd.mk V { limits := L }) hg loop_previews (List.mem_cons_of_mem _ List.mem_cons_self) hT
    cases action with
    | accept =>
      exact ⟨S, token, actions, hS, hc, ha, ((scopes_balanced hV _ hS List.mem_cons_self).2 token actions hc).2 ha⟩
    | shift _ => cases hshows
    | reduce _ => cases hshows

end Ramify.C
