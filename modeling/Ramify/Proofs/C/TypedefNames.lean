import Ramify.Proofs.C.RuleNumbers
import Ramify.Proofs.C.SketchedTexts
import Ramify.Proofs.C.SpelledTrees
import Ramify.Proofs.Parse.SpareRule

/-! The names of types as the only ambiguity of C. Without the keyword `typedef` no declaration introduces the
name of a type, so the scopes of a path never know one, and the reader refuses every identifier as the
name of a type. All other conflicts of the table are settled, so one tree is found at most. -/

namespace Ramify.C

namespace Scopes

def Plain (s : Scopes) : Prop := ∀ f ∈ s.inner :: s.outer, ∀ e ∈ f, e.2.kind = .ordinary

variable {s : Scopes}

lemma plain_empty : Plain {} := by
  intro f hf e he
  rw [List.mem_singleton.mp hf] at he
  cases he

lemma Plain.push (h : s.Plain) : s.push.Plain :=
  List.forall_mem_cons.mpr ⟨List.forall_mem_nil _, h⟩

lemma Plain.pop (h : s.Plain) : s.pop.Plain := by
  rw [Plain, List.forall_mem_cons] at h
  rw [Scopes.pop, pop?]
  cases houter : s.outer with
  | nil => exact List.forall_mem_cons.mpr h
  | cons f outer =>
    rw [houter] at h
    exact h.2

lemma Plain.bind (h : s.Plain) (name : String) (span : Span) : (s.bind name .ordinary span).Plain := by
  rw [Plain, List.forall_mem_cons] at h
  exact List.forall_mem_cons.mpr ⟨List.forall_mem_cons.mpr ⟨rfl, h.1⟩, h.2⟩

lemma Plain.bindAll (h : s.Plain) (names : List Declared) : (bindAll s .ordinary names).Plain := by
  induction names generalizing s with
  | nil => exact h
  | cons d names ih => exact ih (h.bind d.name d.span)

lemma Plain.refusal_isSome (h : s.Plain) (name : String) : (s.refusal? .typedef name).isNone = false := by
  rw [refusal?.eq_def]
  cases hl : s.lookup name with
  | none => rfl
  | some b =>
    obtain ⟨f, hf, hb⟩ := List.exists_of_findSome?_eq_some hl
    have hkind : b.kind = .ordinary := h f hf _ (Rules.mem_of_lookup hb)
    rw [Option.map_some, hkind]
    rfl

end Scopes

lemma Checker.knows_plain {K : Checker} {ctx : Context} {p : Nat} (hrole : K.vocabulary.role p = .typedefName)
    (h : ctx.scopes.Plain) (annotations : Annotations) (children : List Tree) :
    K.knows .typedef ctx p annotations children = false := by
  rw [knows, hrole, Role.use?]
  cases children.head? with
  | none => rfl
  | some t => exact h.refusal_isSome _

lemma Rules.typedefName_right : (∃ r ∈ rules, (r.label == some "typedefName") = true) ∧
    ∀ r ∈ rules, r.label = some "typedefName" → r.right = [t "identifier"] := by decide +kernel

namespace Reader

variable {R : Reader}

lemma annotate_typedef {role : Role} {category : Category} {parts : List Part} {annotations : Annotations}
    (h : R.annotate role category parts = .ok annotations) (hrole : role ≠ .typedefStorage)
    (hparts : ∀ part ∈ parts, part.annotations.typedef = false) : annotations.typedef = false := by
  obtain ⟨own, hown, h⟩ := Grammar.ok_of_bind h
  have hmark : own.typedef = false := by
    cases role with
    | typedefStorage => exact absurd rfl hrole
    | declaratorName =>
      obtain ⟨d, _, hown⟩ := Grammar.ok_of_bind hown
      cases hown
      rfl
    | _ =>
      cases hown
      rfl
  have hany : (parts.any fun part => part.annotations.typedef) = false :=
    List.any_eq_false.mpr fun part hpart => Bool.eq_false_iff.mp (hparts part hpart)
  cases category with
  | typeSpecifier =>
    cases h
    split
    · exact hmark
    · exact hmark
  | declarationSpecifiers | specifierQualifierList =>
    cases h
    exact Bool.or_eq_false_iff.mpr ⟨hmark, hany⟩
  | declaration =>
    cases parts with
    | nil => cases h
    | cons specifiers rest =>
      cases h
      exact hparts specifiers List.mem_cons_self
  | enumerator =>
    obtain ⟨d, _, h⟩ := Grammar.ok_of_bind h
    cases h
    exact hmark
  | _ =>
    cases h
    exact hmark

lemma plain_contextAfter {ctx : Context} (h : ctx.scopes.Plain) (kind : TokenKind) :
    (contextAfter ctx kind).scopes.Plain := by
  rw [contextAfter]
  split
  · exact h.push
  · exact h

lemma plain_advance {ctx : Context} (h : ctx.scopes.Plain) (role : Role) (category : Category)
    {annotations : Annotations} (ha : annotations.typedef = false) :
    (advance ctx role category annotations).scopes.Plain := by
  cases category with
  | declaratorInit | enumerator => exact h.bindAll _
  | declaration =>
    rw [advance, ha]
    exact h.bindAll _
  | blockOpen => exact h.push.bindAll _
  | compoundStatement => exact h.pop
  | iterationStatement =>
    rw [advance]
    split
    · exact h.pop
    · exact h
  | _ => exact h

lemma plain_afterAll {ts : List Tree} (h : ∀ t ∈ ts, ∀ ctx : Context, ctx.scopes.Plain →
    (R.checker.after ctx t).scopes.Plain) {ctx : Context} (hctx : ctx.scopes.Plain) :
    (R.checker.afterAll ctx ts).scopes.Plain := by
  induction ts generalizing ctx with
  | nil =>
    rw [Checker.afterAll]
    exact hctx
  | cons t ts ih =>
    rw [List.forall_mem_cons] at h
    rw [Checker.afterAll]
    exact ih h.2 (h.1 ctx hctx)

section Plain

variable (hno : ∀ token ∈ R.tokens, token.kind ≠ .keyword .typedef)

include hno

lemma Spells.typedef_eq {x : NamedSymbol} {t : Tree} (h : R.Spells x t) : t.annotations.typedef = false := by
  refine h.induction (P := fun _ t => t.annotations.typedef = false) (fun _ _ _ _ => rfl) ?_
  intro i r span annotations children hr hchildren ha
  refine annotate_typedef ha (fun hrole => ?_) ?_
  · rw [(Rules.storage_iff _ (List.mem_of_getElem? hr)).mp hrole] at hchildren
    obtain ⟨t, _, ⟨ht, _⟩, _⟩ := List.forall₂_cons_left_iff.mp hchildren
    obtain ⟨_, _, token, _, htok, hkind⟩ := ht.term_inv
    exact hno token (Array.mem_of_getElem? htok) (Rules.kind_typedef hkind)
  · have hmarks := ((List.forall₂_and_left _ _).mp (hchildren.flip.imp fun _ _ ht => And.symm ht)).1
    intro part hpart
    obtain ⟨t, ht, rfl⟩ := List.mem_map.mp hpart
    cases t <;> exact hmarks _ ht

lemma Spells.plain_after {x : NamedSymbol} {t : Tree} (h : R.Spells x t) : ∀ ctx : Context, ctx.scopes.Plain →
    (R.checker.after ctx t).scopes.Plain := by
  refine h.induction (P := fun _ t => ∀ ctx : Context, ctx.scopes.Plain → (R.checker.after ctx t).scopes.Plain) ?_ ?_
  · intro i span token htok ctx hctx
    have htok' : R.checker.tokens[i]? = some token := htok
    rw [Checker.after, htok']
    exact plain_contextAfter hctx _
  · intro i r span annotations children hr hchildren ha ctx hctx
    have hspells : R.Spells (.nonterm r.left) (.node (i + 1) span annotations children) :=
      .node hr (hchildren.imp fun _ _ ht => ht.1) ha
    have hafter := ((List.forall₂_and_left _ _).mp (hchildren.flip.imp fun _ _ ht => And.symm ht)).1
    rw [Checker.after]
    exact plain_advance (plain_afterAll hafter hctx) _ _ (hspells.typedef_eq hno)

end Plain

end Reader

namespace Vocabulary.Standard

open Rules

variable {V : Vocabulary} {g : Grammar} (h : V.Standard g)

include h

lemma occurs_of_stack {states symbols : List Nat} (hs : (LR.NumberedGrammar.ofGrammar g).Stack states symbols) :
    ∀ k ∈ symbols, ∃ x, Occurs x ∧ code g x = k := by
  have hw := LR.NumberedGrammar.ofGrammar_wellFormed h.numbered
  induction hs with
  | bottom => exact List.forall_mem_nil _
  | @push _ _ k _ _ _ hgoto ih =>
    refine List.forall_mem_cons.mpr ⟨?_, ih⟩
    obtain ⟨i, _, hn⟩ := LR.NumberedGrammar.exists_item_of_goto? hw hgoto
    obtain ⟨rule, hrule, hk⟩ := LR.NumberedGrammar.exists_rule_at hn
    have hmem := List.mem_of_getElem? hk
    rcases h.rule_cases (Array.mem_of_getElem? hrule) with hright | ⟨r, hr, rfl⟩
    · rw [hright, List.mem_singleton] at hmem
      exact ⟨_, ⟨_, List.mem_of_getElem? (i := 0) rfl, Or.inl rfl⟩, hmem.symm⟩
    · obtain ⟨x, hx, rfl⟩ := List.mem_map.mp hmem
      exact ⟨x, ⟨r, hr, Or.inr hx⟩, rfl⟩

lemma spells_of_stands {R : Reader} {L : Search.Parser Token Tree Context FrontError Unit} {symbols : List Symbol}
    {p : Search.Path Tree Context} (hp : L.Stands R.tokens g R.SpellsNumber p symbols) :
    ∀ t ∈ p.values, ∃ x, R.Spells x t := by
  have hoccurs : ∀ s ∈ symbols, ∃ x, Occurs x ∧ Grammar.numberOf rules x = s := by
    intro s hs
    obtain ⟨x, hx, hcode⟩ := h.occurs_of_stack hp.stack _ (List.mem_map_of_mem hs)
    exact ⟨x, hx, Grammar.number_inj (h.numberOf_inRange hx.named) (hp.inRange s hs) hcode⟩
  have hboth := (List.forall₂_and_left _ _).mpr ⟨hoccurs, hp.good⟩
  refine ((List.forall₂_and_left _ _).mp (hboth.flip.imp (S := fun t _ => (∃ x, R.Spells x t) ∧ True) ?_)).1
  rintro t s ⟨⟨x, hx, hs⟩, ht⟩
  exact ⟨⟨x, ht x hx hs⟩, trivial⟩

end Vocabulary.Standard

namespace FrontEnd

open LR Search

variable {E : FrontEnd} {tokens : Array Token} {g : Grammar}

lemma parseTokens_ne_nil {trees : List Tree} {stats : Stats} (h : E.parseTokens tokens = .ok (trees, stats)) :
    trees ≠ [] := by
  rw [parseTokens] at h
  cases hr : (E.search tokens).result with
  | error f =>
    rw [hr] at h
    cases h
  | ok roots =>
    rw [hr] at h
    cases h
    exact List.map_eq_nil_iff.not.mpr (Parser.parse_ok hr).1

lemma spares_typedefName (hV : E.vocabulary.Standard g) (hno : ∀ token ∈ tokens, token.kind ≠ .keyword .typedef) :
    (E.treeParser tokens).Spares tokens preferShift g (E.reader tokens).SpellsNumber Rules.typedefName
      ((E.reader tokens).Traces (E.treeParser tokens) g (E.reader tokens).SpellsNumber) := by
  have hB : (E.reader tokens).Builds (E.treeParser tokens).builder := (E.reader tokens).builds_tree
  have hP : (E.treeParser tokens).Constructed preferShift g := ⟨hV.table_eq, hV.numbered⟩
  obtain ⟨i, r, hplace, hr, hlabel⟩ := Rules.rules_place Rules.typedefName_right.1
  have hrole : E.vocabulary.role (i + 1) = .typedefName := by
    rw [hV.role_eq hr, Rules.roleOf, beq_iff_eq.mp hlabel]
    rfl
  have hplace' : Rules.typedefName = i + 1 := hplace
  refine ⟨hP, hplace' ▸ Nat.succ_ne_zero i, ⟨_, hplace' ▸ hV.rule_succ hr, ?_⟩, fun p q hp hm => ?_, fun p hp => hp.stands, ?_⟩
  · rw [List.length_map, Rules.typedefName_right.2 r (List.mem_of_getElem? hr) (beq_iff_eq.mp hlabel)]
    rfl
  · exact hp.movesTo hP (hB.keeps_spells hV) hB hm
  · intro p q token _ _ hp hm
    obtain ⟨symbols, hstands⟩ := hp.stands
    have hplain : p.context.scopes.Plain := by
      rw [hp.context_eq]
      refine Reader.plain_afterAll (fun t ht => ?_) Scopes.plain_empty
      obtain ⟨x, hx⟩ := hV.spells_of_stands hstands t (List.mem_reverse.mp ht)
      exact hx.plain_after hno
    obtain ⟨production, _, _, context, value, hprod, _, _, _, hb, _⟩ := Parser.reduce_next hm
    rw [hP.productions_eq, hplace'] at hprod
    obtain ⟨annotations, _, _, hasks⟩ := (E.reader tokens).treeBuilder_ok_iff.mp hb
    rw [hV.numbered.index_eq _ _ hprod, Reader.asks, Bool.and_eq_true, Bool.and_eq_true] at hasks
    exact Bool.false_ne_true ((Checker.knows_plain hrole hplain annotations _).symm.trans hasks.1.1)

end FrontEnd

/-- The names of types are the only ambiguity of C. Of tokens without the keyword `typedef`, whatever stands at
their end and whether or not values are gated, there is exactly one tree, or none and an error. -/
theorem unambiguous_without_typedef {V : Vocabulary} (hV : standard = some V) (config : Config) {tokens : Array Token}
    (hno : ∀ token ∈ tokens, token.kind ≠ .keyword .typedef) :
    (∃ tree stats, (FrontEnd.mk V config).parseTokens tokens = .ok ([tree], stats)) ∨
      ∃ e, (FrontEnd.mk V config).parseTokens tokens = .error e := by
  obtain ⟨g, hg⟩ := standard_eq hV
  cases hparse : (FrontEnd.mk V config).parseTokens tokens with
  | error e => exact Or.inr ⟨e, rfl⟩
  | ok found =>
    obtain ⟨trees, stats⟩ := found
    have hsize : 0 < tokens.size := by
      refine Array.size_pos_iff.mpr fun hempty => ?_
      rw [hempty] at hparse
      cases hparse
    obtain ⟨es, hes, rfl⟩ := FrontEnd.reads_of_parseTokens hparse
    have hspares := FrontEnd.spares_typedefName (E := ⟨V, config⟩) hg hno
    have hforks := hspares.forks hg.covers hg.settles ?_
    · have hle := hforks.accepted_length_le hes (Reader.traces_start (Reader.builds_tree _) hsize)
      have hne := FrontEnd.parseTokens_ne_nil hparse
      obtain ⟨tree, htree⟩ := List.length_eq_one_iff.mp (hle.antisymm (List.length_pos_of_ne_nil hne))
      exact Or.inl ⟨tree, stats, by rw [htree]⟩
    · rintro s u p ⟨hp, hu⟩
      rw [hp]
      exact hg.ifThen_notMem hu

theorem unambiguous_without_typedef_product : ∃ V L, standard = some V ∧
    (∀ token ∈ loopTokens, token.kind ≠ .keyword .typedef) ∧
    ∃ tree stats, (FrontEnd.mk V { limits := L }).parseTokens loopTokens = .ok ([tree], stats) := by
  obtain ⟨V, _, hV, _⟩ := exists_vocabulary
  obtain ⟨g, hg⟩ := standard_eq hV
  have hno : ∀ token ∈ loopTokens, token.kind ≠ .keyword .typedef := by decide
  obtain ⟨_, _, L, hL⟩ := FrontEnd.exists_parseTokens_of_previews (E := FrontEnd.mk V {}) hg loop_previews
    (List.mem_cons_of_mem _ List.mem_cons_self) (by decide)
  obtain ⟨_, _, hfound, _⟩ := hL L le_rfl le_rfl
  rcases unambiguous_without_typedef hV { limits := L } hno with hone | ⟨e, he⟩
  · exact ⟨V, L, hV, hno, hone⟩
  · cases hfound.symm.trans he

end Ramify.C
