import Ramify.Proofs.C.NameCodes
import Ramify.Proofs.C.RenamedTrees
import Ramify.Proofs.C.SharedPool
import Ramify.Proofs.C.SketchedTexts
import Ramify.Proofs.C.Survivors

/-! Parses of texts whose names are replaced. Only the kinds of tokens matter, and which names are equal: the
searches of both texts go through the same steps, with contexts that know the same of old names and new
ones, and find the same trees; and the check rejects the same of them. -/

namespace Ramify.C

open Search

variable {ρ : String → String} {tokens tokens' : Array Token}

namespace Rules

lemma name_right : ∀ r ∈ rules,
    (roleOf r).use?.isSome ∨ roleOf r = .declaratorName ∨ categoryOf r.left = .enumerator →
      r.right.head? = some (t "identifier") := by
  decide +kernel

end Rules

namespace Reader

variable {R R' : Reader} {g : Grammar} (hV : R.vocabulary.Standard g)

include hV

lemma leads_of_spells {i : Nat} {p : Production} {children : List Tree} (hp : g.productions[i + 1]? = some p)
    (hchildren : List.Forall₂ R.SpellsNumber p.rhs children)
    (h : ReadsName (R.vocabulary.role (i + 1)) (R.vocabulary.category (i + 1))) :
    Leads R.tokens (children.map Tree.part) := by
  obtain ⟨r, hr⟩ := Grammar.ofRules_rule hV.grammar_eq hp
  have hmem := List.mem_of_getElem? hr
  obtain ⟨p', hp', _, hrhs, _⟩ := Grammar.ofRules_production hV.grammar_eq hr
  obtain rfl := Option.some.inj (hp.symm.trans hp')
  rw [hV.role_eq hr, hV.category_eq hr] at h
  obtain ⟨rest, hright⟩ := List.head?_eq_some_iff.mp (Rules.name_right r hmem h)
  rw [hrhs] at hchildren
  have hspells := spells_children (fun x hx => ⟨r, hmem, Or.inr hx⟩) hchildren
  rw [hright] at hspells
  obtain ⟨t, children, ht, _, rfl⟩ := List.forall₂_cons_left_iff.mp hspells
  obtain ⟨k, span, token, rfl, htoken, hname⟩ := ht.term_inv
  rintro part ⟨⟩
  exact ⟨k, token, rfl, htoken, Rules.kind_identifier hname⟩

end Reader

namespace FrontEnd

variable {E : FrontEnd} {g : Grammar}

lemma reader_renamed (E : FrontEnd) (h : Renames ρ tokens tokens') : (E.reader tokens).Renamed ρ (E.reader tokens') :=
  ⟨rfl, rfl, h⟩

lemma reduce_ne_zero {P : Parser Token Tree Context FrontError Unit} (hP : P.Constructed preferShift g)
    {Good : Symbol → Tree → Prop} {p : Path Tree Context} {symbols : List Symbol} (hp : P.Stands tokens g Good p symbols)
    {token : Token} {actions : List Action} (hc : P.cell tokens p = some (token, actions)) {index : Nat}
    (ha : Action.reduce index ∈ actions) : index ≠ 0 := by
  obtain ⟨_, _, _, _, _, _, hmem⟩ := hp.mem_cell hP hc ha
  exact ((LR.Construction.reduce_mem_allActions (LR.NumberedGrammar.ofGrammar_wellFormed hP.numbered)).mp hmem).1

structure PathRenamed (E : FrontEnd) (g : Grammar) (ρ : String → String) (tokens : Array Token)
    (p q : Path Tree Context) : Prop where
  stands : ∃ symbols, (E.treeEngine tokens).Stands tokens g (E.reader tokens).SpellsNumber p symbols
  position_eq : q.position = p.position
  states_eq : q.states = p.states
  context : p.context.Renamed ρ tokens q.context
  values : List.Forall₂ (Tree.Renamed ρ tokens E.vocabulary) p.values q.values

def likeness (E : FrontEnd) (g : Grammar) (ρ : String → String) (tokens : Array Token) :
    Likeness Tree Context FrontError Unit Tree Context FrontError Unit where
  path _ _ := E.PathRenamed g ρ tokens
  value _ _ := Tree.Renamed ρ tokens E.vocabulary
  error e e' := e'.kind = e.kind

lemma reduce_move {index exposed target : Nat} {production : Production} {p : Path Tree Context}
    (hp : E.vocabulary.table.productions[index]? = some production)
    (he : p.states[production.rhs.length]? = some exposed) (hv : production.rhs.length ≤ p.values.length)
    (hg : E.vocabulary.table.goto? exposed production.lhs = some target) (token : Token) :
    (E.treeEngine tokens).move tokens () p token (.reduce index) =
      ((), p.reduced index production.rhs.length target
        (((E.reader tokens).interpret p.context production.index
          ((p.values.take production.rhs.length).reverse.map Tree.part)).map fun r => (r.1, .node production.index
            (spanOf ((p.values.take production.rhs.length).reverse.map Tree.part)) r.2
            (p.values.take production.rhs.length).reverse))) := by
  have hp' : (E.treeEngine tokens).table.productions[index]? = some production := hp
  have hg' : (E.treeEngine tokens).table.goto? exposed production.lhs = some target := hg
  rw [Parser.move, Parser.reduceMove, hp']
  dsimp only
  rw [he]
  dsimp only
  rw [if_neg (Nat.not_lt.mpr hv), hg']
  rfl

section Moves

variable (hV : E.vocabulary.Standard g) (h : Renames ρ tokens tokens') {p q : Path Tree Context} {token token' : Token}
  {actions : List Action}

include hV

lemma engine_constructed (tokens : Array Token) : (E.treeEngine tokens).Constructed preferShift g :=
  ⟨hV.table_eq, hV.numbered⟩

lemma stands_next (hp : E.PathRenamed g ρ tokens p q) (hc : (E.treeEngine tokens).cell tokens p = some (token, actions))
    {action : Action} (ha : action ∈ actions) {p' : Path Tree Context}
    (hm : (E.treeEngine tokens).move tokens () p token action = ((), .next p')) :
    ∃ symbols, (E.treeEngine tokens).Stands tokens g (E.reader tokens).SpellsNumber p' symbols :=
  Parser.Stands.movesTo (engine_constructed hV tokens) ((E.reader tokens).builds_tree.keeps_spells hV) hp.stands
    ⟨token, actions, action, (), (), hc, ha, hm⟩

include h

lemma shift_renamed (hp : E.PathRenamed g ρ tokens p q)
    (hc : (E.treeEngine tokens).cell tokens p = some (token, actions)) (hkind : token'.kind = token.kind) {target : Nat}
    (ha : Action.shift target ∈ actions) : (E.likeness g ρ tokens).Moves () ()
      ((E.treeEngine tokens).move tokens () p token (.shift target)).2
      ((E.treeEngine tokens').move tokens' () q token' (.shift target)).2 := by
  have hnext (p' : Path Tree Context)
      (hm : (E.treeEngine tokens).shiftMove tokens () p token target = ((), .next p')) := stands_next hV hp hc ha hm
  rw [Parser.move, Parser.move, Parser.shiftMove, Parser.shiftMove, h.size_eq, hp.position_eq]
  rw [Parser.shiftMove] at hnext
  by_cases hlast : tokens.size - 1 ≤ p.position
  · rw [if_pos hlast, if_pos hlast]
    exact .rejected (.some rfl)
  · rw [if_neg hlast] at hnext
    rw [if_neg hlast, if_neg hlast]
    refine .next ⟨hnext _ rfl, congrArg (· + 1) hp.position_eq, congrArg (target :: ·) hp.states_eq, ?_,
      .cons (.leaf _ _ _) hp.values⟩
    change Context.Renamed ρ tokens (Reader.contextAfter p.context token.kind)
      (Reader.contextAfter q.context token'.kind)
    rw [hkind]
    exact hp.context.contextAfter _

lemma reduce_renamed (hp : E.PathRenamed g ρ tokens p q)
    (hc : (E.treeEngine tokens).cell tokens p = some (token, actions)) {index : Nat}
    (ha : Action.reduce index ∈ actions) : (E.likeness g ρ tokens).Moves () ()
      ((E.treeEngine tokens).move tokens () p token (.reduce index)).2
      ((E.treeEngine tokens').move tokens' () q token' (.reduce index)).2 := by
  have hP := engine_constructed hV tokens
  obtain ⟨symbols, hstands⟩ := hp.stands
  obtain ⟨production, exposed, target, hprod, hle, hrhs, he, _, hgoto⟩ := hstands.reduction hP hc ha
  have hproduction : E.vocabulary.table.productions[index]? = some production := hV.productions_eq ▸ hprod
  have hlength : production.rhs.length ≤ p.values.length := hstands.good.length_eq ▸ hle
  have hnext (p' : Path Tree Context)
      (hm : (E.treeEngine tokens).move tokens () p token (.reduce index) = ((), .next p')) := stands_next hV hp hc ha hm
  rw [reduce_move hproduction he hlength hgoto] at hnext
  rw [reduce_move hproduction he hlength hgoto, reduce_move hproduction (hp.states_eq ▸ he)
    (hp.values.length_eq ▸ hlength) hgoto]
  obtain ⟨i, rfl⟩ := Nat.exists_eq_succ_of_ne_zero (reduce_ne_zero hP hstands hc ha)
  rw [hV.numbered.index_eq _ _ hprod] at hnext ⊢
  have hspells : List.Forall₂ (E.reader tokens).SpellsNumber production.rhs
      (p.values.take production.rhs.length).reverse := by
    have htaken := List.forall₂_reverse_iff.mpr (List.forall₂_take production.rhs.length hstands.good)
    rwa [hrhs] at htaken
  have hchildren : List.Forall₂ (Tree.Renamed ρ tokens E.vocabulary) (p.values.take production.rhs.length).reverse
      (q.values.take production.rhs.length).reverse :=
    List.forall₂_reverse_iff.mpr (List.forall₂_take production.rhs.length hp.values)
  have hleads := Reader.leads_of_spells (R := E.reader tokens) hV hprod hspells
  have hinterpret := (E.reader_renamed h).interpret (List.rel_map (fun _ _ ht => ht.part) hchildren) hp.context hleads
  revert hinterpret hnext
  generalize (E.reader tokens).interpret _ _ _ = made
  generalize (E.reader tokens').interpret _ _ _ = made'
  rintro hnext (hrefused | ⟨hcontext, hx⟩)
  · cases hrefused with
    | reject he => exact .rejected (.some he)
    | undefined => exact .stop (.undefined _)
  · refine .next ⟨hnext _ rfl, hp.position_eq, ?_, hcontext, .cons (.node _ _ _ hx hleads hchildren) ?_⟩
    · exact congrArg (fun states => target :: states.drop production.rhs.length) hp.states_eq
    · exact List.forall₂_drop _ hp.values

lemma move_renamed (hp : E.PathRenamed g ρ tokens p q)
    (hc : (E.treeEngine tokens).cell tokens p = some (token, actions)) (hkind : token'.kind = token.kind)
    {action : Action} (ha : action ∈ actions) : (E.likeness g ρ tokens).Moves () ()
      ((E.treeEngine tokens).move tokens () p token action).2
      ((E.treeEngine tokens').move tokens' () q token' action).2 := by
  cases action with
  | shift target => exact shift_renamed hV h hp hc hkind ha
  | reduce index => exact reduce_renamed hV h hp hc ha
  | accept =>
    have hvalues := hp.values
    rw [Parser.move, Parser.move]
    generalize p.values = vs at hvalues
    generalize q.values = vs' at hvalues
    cases hvalues with
    | nil => exact .rejected .none
    | cons ht _ => exact .accepted ht

lemma engine_paces : (E.treeEngine tokens).Paces (E.treeEngine tokens') (E.likeness g ρ tokens) tokens tokens' where
  table_eq := rfl
  limits_eq := rfl
  traced_eq := rfl
  size_eq := h.size_eq
  terminal_eq ht ht' := congrArg E.vocabulary.terminal? (h.kind_eq ht ht')
  syntaxError _ _ _ := rfl
  position_eq hp := hp.position_eq
  states_eq hp := hp.states_eq
  move := by
    intro s s' p q token token' actions hp hc hc' action ha
    obtain ⟨symbols, hstands⟩ := hp.stands
    obtain ⟨state, states, hs⟩ := hstands.states_eq
    have ht := (Parser.cell_eq_some hs hc).1
    have ht' := (Parser.cell_eq_some (hp.states_eq.trans hs) hc').1
    rw [hp.position_eq, h.size_eq] at ht'
    have hkind : token'.kind = token.kind := h.kind_eq ht ht'
    exact ⟨move_renamed hV h hp hc hkind ha, fun _ _ hq => hq, fun _ _ ht => ht⟩

end Moves

lemma sort_ok (hV : E.vocabulary.Standard g) (hne : 0 < tokens.size) {trees : List Tree} {stats : Stats}
    (hp : E.parseTokens tokens = .ok (trees, stats)) : ∃ sorted, (E.checker tokens).sort trees = .ok sorted := by
  cases hs : (E.checker tokens).sort trees with
  | ok sorted => exact ⟨sorted, rfl⟩
  | error p =>
    obtain ⟨t, hmem, hc⟩ := Checker.sortFrom_error hs
    have hspells := (((reads_of_parseTokens hp).mem_iff hV hne).mp hmem).1.spells hV hne
    exact absurd hc (Checker.defined_check hV hspells p)

end FrontEnd

/-- Only the kinds of tokens matter, and which names are equal. When the names of a text are replaced, one by
one, the front end fails with the same kind of error, or it counts the same and finds the same trees, node
by node, with the new names noted where the old ones were; and the check rejects the same of them, for the
same reason, with the new names. -/
theorem parse_renamed {V : Vocabulary} (hV : standard = some V) (config : Config) (h : Renames ρ tokens tokens') :
    let E := FrontEnd.mk V config
    (∃ e e', E.parseTokens tokens = .error e ∧ E.parseTokens tokens' = .error e' ∧ e'.kind = e.kind) ∨
      ∃ trees trees' stats sorted sorted', E.parseTokens tokens = .ok (trees, stats) ∧
        E.parseTokens tokens' = .ok (trees', stats) ∧
        List.Forall₂ (fun t t' => List.Forall₂ (Tree.Entry.Renamed ρ tokens) t.entries t'.entries) trees trees' ∧
        (E.checker tokens).sort trees = .ok sorted ∧ (E.checker tokens').sort trees' = .ok sorted' ∧
        List.Forall₂ (fun r r' => r'.1 = r.1 ∧ r.2.Renamed ρ r'.2) sorted.rejected sorted'.rejected := by
  intro E
  obtain ⟨g, hg⟩ := standard_eq hV
  rcases Nat.eq_zero_or_pos tokens.size with hempty | hne
  · obtain rfl := Array.eq_empty_of_size_eq_zero hempty
    obtain rfl := Array.eq_empty_of_size_eq_zero (h.size_eq.trans hempty)
    exact Or.inl ⟨_, _, rfl, rfl, rfl⟩
  have hpaces : (E.treeEngine tokens).Paces (E.treeEngine tokens') (E.likeness g ρ tokens) tokens tokens' :=
    FrontEnd.engine_paces hg h
  have hstart : E.PathRenamed g ρ tokens ((E.treeEngine tokens).start ()).path ((E.treeEngine tokens').start ()).path :=
    ⟨⟨[], Parser.stands_start hne ()⟩, rfl, rfl, ⟨⟨.nil, .nil⟩, .none⟩, .nil⟩
  obtain ⟨hresult, hstats, _⟩ := hpaces.parse {} hstart
  have htrees := FrontEnd.parseTokens_eq E tokens
  have htrees' := FrontEnd.parseTokens_eq E tokens'
  rw [FrontEnd.parseTrees] at htrees htrees'
  rcases hresult with ⟨f, f', hp, hp', hf⟩ | ⟨trees, trees', hp, hp', hfound⟩
  · rw [hp] at htrees
    rw [hp'] at htrees'
    refine Or.inl ⟨_, _, htrees, htrees', ?_⟩
    cases hf with
    | noParse he => exact he
    | _ => rfl
  · rw [hp] at htrees
    rw [hp', hstats] at htrees'
    have hsort := (E.reader_renamed h).sortFrom 0 hfound
    obtain ⟨sorted, hs⟩ := FrontEnd.sort_ok hg hne htrees
    obtain ⟨sorted', hs'⟩ := FrontEnd.sort_ok hg (h.size_eq ▸ hne) htrees'
    refine Or.inr ⟨trees, trees', _, sorted, sorted', htrees, htrees', hfound.imp fun {_ _} ht => ht.entries, hs, hs', ?_⟩
    change Corresponds _ _ ((E.checker tokens).sort trees) ((E.checker tokens').sort trees') at hsort
    rw [hs, hs'] at hsort
    cases hsort with
    | ok hsorted => exact hsorted.rejected

def swapped (name : String) : String := if name = "a" then "b" else if name = "b" then "a" else name

def exchanged (token : Token) : Token :=
  { token with span := ⟨⟨2, 1⟩, ⟨2, 2⟩⟩, text := if token.kind = .identifier then swapped token.text else token.text }

lemma swapped_involutive : Function.Involutive swapped := by
  intro name
  rw [swapped, swapped]
  split_ifs <;> simp_all

lemma exchanged_renames (tokens : Array Token) : Renames swapped tokens (tokens.map exchanged) where
  size_eq := Array.size_map
  kind_eq ht ht' := by
    rw [Array.getElem?_map, ht] at ht'
    rw [← Option.some.inj ht', exchanged]
  text_eq ht ht' hid := by
    rw [Array.getElem?_map, ht] at ht'
    rw [← Option.some.inj ht', exchanged, if_pos hid]
  injective := swapped_involutive.injective.injOn

theorem parse_renamed_swapped : ∃ V L, standard = some V ∧ let E := FrontEnd.mk V { limits := L }
    Renames swapped loopTokens (loopTokens.map exchanged) ∧
    ∃ trees trees' stats sorted sorted', E.parseTokens loopTokens = .ok (trees, stats) ∧
      E.parseTokens (loopTokens.map exchanged) = .ok (trees', stats) ∧ trees ≠ [] ∧
      List.Forall₂ (fun t t' => List.Forall₂ (Tree.Entry.Renamed swapped loopTokens) t.entries t'.entries) trees trees' ∧
      (E.checker loopTokens).sort trees = .ok sorted ∧ (E.checker (loopTokens.map exchanged)).sort trees' = .ok sorted' ∧
      List.Forall₂ (fun r r' => r'.1 = r.1 ∧ r.2.Renamed swapped r'.2) sorted.rejected sorted'.rejected := by
  obtain ⟨V, _, hV, _⟩ := exists_vocabulary
  obtain ⟨g, hg⟩ := standard_eq hV
  have hrenames := exchanged_renames loopTokens
  obtain ⟨_, _, L, hL⟩ := FrontEnd.exists_parseTokens_of_previews (E := FrontEnd.mk V {}) hg loop_previews
    (List.mem_cons_of_mem _ List.mem_cons_self) (by decide)
  obtain ⟨trees, stats, hfound, hmem⟩ := hL L le_rfl le_rfl
  refine ⟨V, L, hV, hrenames, ?_⟩
  rcases parse_renamed hV { limits := L } hrenames with ⟨e, _, he, _⟩ | ⟨trees', others, stats', sorted, sorted', hp, hp', hrest⟩
  · cases hfound.symm.trans he
  · obtain ⟨rfl, rfl⟩ := Prod.mk.inj (Except.ok.inj (hfound.symm.trans hp))
    exact ⟨trees, others, stats, sorted, sorted', hp, hp', List.ne_nil_of_mem hmem, hrest⟩

end Ramify.C
