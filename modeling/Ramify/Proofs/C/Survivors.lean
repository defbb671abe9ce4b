import Ramify.Proofs.C.SpelledTrees

/-! The survivors of a text. Of all trees that the table derives, those survive in which the
provisional scopes refuse nothing, whose lists of specifiers are consistent, and which pass
the scope check; a search that ends without a parse says that there is none. -/

namespace Ramify.C

namespace Checker

variable (K : Checker)

mutual

lemma everywhere_and (f f' : Query) (ctx : Context) : ∀ t,
    K.everywhere (fun ctx p a ts => f ctx p a ts && f' ctx p a ts) ctx t =
      (K.everywhere f ctx t && K.everywhere f' ctx t)
  | .leaf _ _ => rfl
  | .node p _ annotations children => by
    rw [everywhere, everywhere, everywhere, everywhereAll_and f f' ctx children]
    ac_rfl

lemma everywhereAll_and (f f' : Query) (ctx : Context) : ∀ ts,
    K.everywhereAll (fun ctx p a ts => f ctx p a ts && f' ctx p a ts) ctx ts =
      (K.everywhereAll f ctx ts && K.everywhereAll f' ctx ts)
  | [] => rfl
  | t :: rest => by
    rw [everywhereAll, everywhereAll, everywhereAll, everywhere_and f f' ctx t,
      everywhereAll_and f f' (K.after ctx t) rest]
    ac_rfl

end

variable {K} {trees : List Tree} {first : Nat}

lemma error_of_return {ε α β : Type} {x : Except ε α} {f : α → β} {e : ε} (h : (do return f (← x)) = .error e) :
    x = .error e := by
  cases x with
  | error e' => exact congrArg _ (Except.error.inj h)
  | ok a => cases h

lemma sortFrom_ok {sorted : Sorted} (h : K.sortFrom first trees = .ok sorted) :
    sorted.survivors = trees.filter fun t => (K.check t).isOk := by
  induction trees generalizing first sorted with
  | nil =>
    cases h
    rfl
  | cons t trees ih =>
    rw [sortFrom] at h
    cases hc : K.check t with
    | ok u =>
      rw [hc] at h
      obtain ⟨others, hothers, h⟩ := Grammar.ok_of_bind h
      cases h
      rw [List.filter_cons_of_pos (by rw [hc]; rfl), ih hothers]
    | error e =>
      rw [hc] at h
      cases e with
      | scope e =>
        obtain ⟨others, hothers, h⟩ := Grammar.ok_of_bind h
        cases h
        rw [List.filter_cons_of_neg (by rw [hc]; exact Bool.false_ne_true), ih hothers]
      | undefined p => cases h

lemma sortFrom_error {p : Nat} (h : K.sortFrom first trees = .error p) :
    ∃ t ∈ trees, K.check t = .error (.undefined p) := by
  induction trees generalizing first with
  | nil => cases h
  | cons t trees ih =>
    have hrest : K.sortFrom (first + 1) trees = .error p ∨ K.check t = .error (.undefined p) := by
      rw [sortFrom] at h
      split at h
      · exact Or.inl (error_of_return h)
      · exact Or.inl (error_of_return h)
      · rename_i hc
        cases h
        exact Or.inr hc
    rcases hrest with hrest | hc
    · obtain ⟨t', ht', hc⟩ := ih hrest
      exact ⟨t', List.mem_cons_of_mem _ ht', hc⟩
    · exact ⟨t, List.mem_cons_self, hc⟩

end Checker

namespace Reader

variable {R : Reader}

lemma permit_defined {scopes : Scopes} {role : Role} {part : Part} {parts : List Part} :
    R.permit scopes role (part :: parts) ≠ .error .undefined := by
  intro h
  rw [permit] at h
  split at h
  · split at h
    · rw [permitUse, firstName] at h
      dsimp only [bind, Except.bind] at h
      split at h <;> cases h
    · cases h
  · cases h

variable (R) in
lemma annotate_defined (role : Role) (category : Category) (part : Part) (parts : List Part) :
    ∃ annotations, R.annotate role category (part :: parts) = .ok annotations := by
  obtain ⟨a, ha⟩ : ∃ a, R.roleAnnotations role (part :: parts) = .ok a := by
    cases role <;> exact ⟨_, rfl⟩
  obtain ⟨b, hb⟩ : ∃ b, R.categoryAnnotations role category (part :: parts) a = .ok b := by
    cases category <;> exact ⟨_, rfl⟩
  exact ⟨b, by rw [annotate, ha]; exact hb⟩

lemma checkSpecifiers_defined {category : Category} {span : Span} {annotations : Annotations} :
    checkSpecifiers category span annotations ≠ .error .undefined := by
  intro h
  rw [checkSpecifiers.eq_def] at h
  split at h
  · split at h <;> cases h
  · split at h <;> cases h
  · cases h

lemma reduce_defined {pool pool' : Pool} {ctx : Context} {p : Production} {children : List Nat}
    (hcovers : R.vocabulary.Covers p.index) (hne : children ≠ []) : R.reduce pool ctx p children ≠ (pool', .error .undefined) := by
  obtain ⟨child, rest, rfl⟩ := List.exists_cons_of_ne_nil hne
  intro h
  have hinterpret : R.interpret ctx p.index (pool.part child :: rest.map pool.part) = .error .undefined := by
    rw [reduce, List.map_cons] at h
    dsimp only at h
    split at h
    · rename_i hi
      rw [hi]
      exact congrArg _ (Except.error.inj (congrArg Prod.snd h))
    · cases h
  obtain ⟨annotations, hann⟩ := R.annotate_defined (R.vocabulary.role p.index)
    (R.vocabulary.category p.index) (pool.part child) (rest.map pool.part)
  rw [interpret_of_covers hcovers, interpretAs] at hinterpret
  dsimp only [bind, Except.bind] at hinterpret
  split at hinterpret
  · rename_i hp
    exact permit_defined (hp.trans (congrArg _ (Except.error.inj hinterpret)))
  · rw [hann] at hinterpret
    dsimp only at hinterpret
    split at hinterpret
    · rename_i hc
      exact checkSpecifiers_defined (hc.trans (congrArg _ (Except.error.inj hinterpret)))
    · cases hinterpret

end Reader

namespace FrontEnd

open Search

variable (E : FrontEnd) (tokens : Array Token)

def looseParser : Parser Token Tree Context FrontError Unit where
  table := E.vocabulary.table
  builder := (E.reader tokens).looseBuilder

def Derives (t : Tree) : Prop := (E.looseParser tokens).Accepts tokens () [t]

/-- The survivors of a text; a text that cannot be read has none, and if the limits stopped the
search they are not known. -/
def survivors? (source : List UInt8) : Option (List Tree) :=
  match E.analyze source with
  | .ok survey => some survey.survivors
  | .error e => if e.kind = .searchLimitExceeded then none else some []

variable {E tokens} {g : Grammar} {trees : List Tree} {t : Tree}

section Standard

variable (hV : E.vocabulary.Standard g)

include hV

lemma loose_constructed : (E.looseParser tokens).Constructed preferShift g := ⟨hV.table_eq, hV.numbered⟩

lemma tree_constructed : (E.treeParser tokens).Constructed preferShift g := ⟨hV.table_eq, hV.numbered⟩

variable (hne : 0 < tokens.size)

include hne

lemma Derives.spells (h : E.Derives tokens t) : (E.reader tokens).Spells (.nonterm "TranslationUnit") t := by
  obtain ⟨t', ht', hspells⟩ := Reader.Builds.spells_of_accepts (R := E.reader tokens) (L := E.looseParser tokens)
    (E.reader tokens).builds_loose hV (loose_constructed hV) hne h
  exact (List.cons.inj ht').1 ▸ hspells

lemma Reads.mem_iff (h : E.Reads tokens trees) : t ∈ trees ↔
    E.Derives tokens t ∧ (E.checker tokens).everywhere (E.reader tokens).asks {} t = true := by
  obtain ⟨es, hes, rfl⟩ := h
  have hB := (E.reader tokens).builds_loose
  have hL : (E.looseParser tokens).Constructed preferShift g := loose_constructed hV
  have htells := hB.tells hL (hB.keeps_spells hV) hne (E.reader tokens).asks
  have hrestricts : (E.treeParser tokens).Restricts (E.looseParser tokens)
      ((E.reader tokens).Answers (E.reader tokens).asks) := ⟨rfl, (E.reader tokens).treeBuilder_restricts⟩
  rw [hes.mem_accepted_iff]
  constructor
  · rintro ⟨values, h⟩
    obtain ⟨h, hpass⟩ := (htells.accepts_iff hrestricts).mp h
    obtain ⟨t', ht', _⟩ := hB.spells_of_accepts hV hL hne h
    obtain ⟨rfl, rfl⟩ := List.cons.inj ht'
    refine ⟨h, ?_⟩
    rw [List.reverse_singleton, Checker.everywhereAll, Checker.everywhereAll, Bool.and_true] at hpass
    exact hpass
  · rintro ⟨h, hpass⟩
    refine ⟨[], (htells.accepts_iff hrestricts).mpr ⟨h, ?_⟩⟩
    rw [List.reverse_singleton, Checker.everywhereAll, Checker.everywhereAll, Bool.and_true]
    exact hpass

lemma search_failure {failure : Failure FrontError} (h : (E.search tokens).result = .error failure) :
    (∃ e, failure = .noParse e) ∨ (∃ steps, failure = .searchLimit steps) ∨
      ∃ limit, failure = .candidateLimit limit := by
  rcases Parser.parse_failure h with (hempty | hno) | hsteps | hlimit | ⟨S, token, action, store', hS, ⟨_, hc, ha⟩, hm⟩
  · rw [hempty] at hne
    cases hne
  · exact Or.inl hno
  · exact Or.inr (Or.inl hsteps)
  · exact Or.inr (Or.inr hlimit)
  · have hP : (E.parser tokens).Constructed preferShift g := ⟨hV.table_eq, hV.numbered⟩
    obtain ⟨symbols, hp⟩ := Parser.Stands.of_reaches hP (Builder.keeps_any _ tokens _) hne hS
    obtain ⟨index, production, exposed, rfl, hprod, he, hv, hfail⟩ := Parser.move_stop hm
    obtain ⟨production', exposed', target, hprod', _, _, he', _, hg⟩ :=
      hp.reduction hP hc (List.mem_of_getElem? ha)
    rw [hP.productions_eq] at hprod
    obtain rfl := Option.some.inj (hprod.symm.trans hprod')
    obtain rfl := Option.some.inj (he.symm.trans he')
    rcases hfail with ⟨hnone, _⟩ | ⟨_, hb⟩
    · rw [hg] at hnone
      cases hnone
    · have hindex : production.index = index := hV.numbered.index_eq index production hprod
      refine absurd hb (Reader.reduce_defined (hindex ▸ hV.covers_production (hV.productions_eq ▸ hprod)) fun hnil => ?_)
      have hlen := congrArg List.length hnil
      rw [List.length_reverse, List.length_take, Nat.min_eq_left hv, List.length_nil] at hlen
      exact hV.rhs_ne_nil (Array.mem_of_getElem? hprod) (List.eq_nil_of_length_eq_zero hlen)

end Standard

lemma lexFrom_ne_nil {fuel : Nat} {c : Cursor} (h : (lexFrom (fuel + 1) c).error = none) :
    (lexFrom (fuel + 1) c).tokens ≠ [] := by
  rw [lexFrom] at h ⊢
  split at h
  · cases h
  · dsimp only
    split <;> exact List.cons_ne_nil _ _

lemma tokenize_size {source : List UInt8} {list : List Token} (h : tokenize source = .ok list) :
    0 < list.toArray.size := by
  have hlex : (lex source).error = none → (lex source).tokens ≠ [] := lexFrom_ne_nil
  rw [tokenize] at h
  cases hl : lex source with
  | mk tokens error =>
    rw [hl] at h hlex
    cases error with
    | some e => cases h
    | none =>
      obtain rfl := Except.ok.inj h
      exact List.length_pos_iff.mpr (hlex rfl)

section Analyze

variable {source : List UInt8} {list : List Token} (ht : tokenize source = .ok list)

include ht

lemma analyze_error {e : FrontError} (hp : E.parseTokens list.toArray = .error e) :
    E.analyze source = .error e := by
  rw [analyze, forest, ht]
  dsimp only [bind, Except.bind]
  rw [hp]

lemma analyze_ok {stats : Stats} (hp : E.parseTokens list.toArray = .ok (trees, stats)) : E.analyze source =
    match (E.checker list.toArray).sort trees with
    | .ok sorted => .ok ⟨list.toArray, sorted.survivors, sorted.rejected⟩
    | .error production => .error (undefinedAt list.toArray production) := by
  rw [analyze, forest, ht]
  dsimp only [bind, Except.bind]
  rw [hp]
  rfl

lemma survivors?_eq (hV : E.vocabulary.Standard g) {survivors : List Tree}
    (h : E.survivors? source = some survivors) : ∃ trees, E.Reads list.toArray trees ∧
      survivors = trees.filter fun t => ((E.checker list.toArray).check t).isOk := by
  have hne := tokenize_size ht
  cases hp : E.parseTokens list.toArray with
  | error e =>
    rw [survivors?, analyze_error ht hp] at h
    obtain ⟨hkind, hnil⟩ := Option.ite_none_left_eq_some.mp h
    obtain rfl := Option.some.inj hnil
    rw [parseTokens] at hp
    cases hr : (E.search list.toArray).result with
    | ok roots =>
      rw [hr] at hp
      cases hp
    | error failure =>
      rw [hr] at hp
      obtain rfl := Except.error.inj hp
      rcases search_failure hV hne hr with ⟨e, rfl⟩ | ⟨steps, rfl⟩ | ⟨limit, rfl⟩
      · exact ⟨[], reads_of_noParse hr, rfl⟩
      · exact absurd rfl hkind
      · exact absurd rfl hkind
  | ok found =>
    obtain ⟨trees, stats⟩ := found
    have hreads := reads_of_parseTokens hp
    refine ⟨trees, hreads, ?_⟩
    rw [survivors?, analyze_ok ht hp] at h
    cases hs : (E.checker list.toArray).sort trees with
    | error p =>
      -- The check of a tree that was found has a meaning.
      obtain ⟨t, hmem, hc⟩ := Checker.sortFrom_error hs
      have hspells := (hreads.mem_iff hV hne).mp hmem
      exact absurd hc (Checker.defined_check hV (hspells.1.spells hV hne) p)
    | ok sorted =>
      rw [hs] at h
      obtain rfl := Option.some.inj h
      exact Checker.sortFrom_ok hs

lemma mem_survivors?_iff (hV : E.vocabulary.Standard g) {survivors : List Tree}
    (h : E.survivors? source = some survivors) : t ∈ survivors ↔ E.Derives list.toArray t ∧
      (E.checker list.toArray).everywhere (E.reader list.toArray).asks {} t = true ∧
      (E.checker list.toArray).check t = .ok () := by
  obtain ⟨trees, hreads, rfl⟩ := survivors?_eq ht hV h
  rw [List.mem_filter, hreads.mem_iff hV (tokenize_size ht), and_assoc]
  refine and_congr_right fun _ => and_congr_right fun _ => ?_
  cases (E.checker list.toArray).check t with
  | error e => exact ⟨nofun, nofun⟩
  | ok u => exact ⟨fun _ => rfl, fun _ => rfl⟩

end Analyze

section Gate

def gated (E : FrontEnd) (on : Bool) : FrontEnd := { E with config.gateValues := on }

lemma gated_asks : ((E.gated true).reader tokens).asks = fun ctx p annotations children =>
    ((E.gated false).reader tokens).asks ctx p annotations children &&
      (E.checker tokens).knows .ordinary ctx p annotations children := by
  funext ctx p annotations children
  let K := E.checker tokens
  change (K.knows .typedef ctx p annotations children && (!true || K.knows .ordinary ctx p annotations children) &&
      K.agrees ctx p annotations children) =
    (K.knows .typedef ctx p annotations children && (!false || K.knows .ordinary ctx p annotations children) &&
      K.agrees ctx p annotations children && K.knows .ordinary ctx p annotations children)
  rw [Bool.not_true, Bool.false_or, Bool.not_false, Bool.true_or, Bool.and_true]
  ac_rfl

lemma gated_restricts : ((E.gated true).treeParser tokens).Restricts ((E.gated false).treeParser tokens)
    (((E.gated false).reader tokens).Answers ((E.checker tokens).knows .ordinary)) where
  table_eq := rfl
  builder := by
    refine ⟨rfl, rfl, rfl, fun ctx p children r => ?_⟩
    change ((E.gated true).reader tokens).treeBuilder.reduce () ctx p children = _ ↔
      _ ∧ ((E.gated false).reader tokens).treeBuilder.reduce () ctx p children = _
    rw [Reader.treeBuilder_ok_iff, Reader.treeBuilder_ok_iff, gated_asks]
    constructor
    · rintro ⟨annotations, ha, hr, hasks⟩
      obtain ⟨hoff, hknows⟩ := Bool.and_eq_true_iff.mp hasks
      refine ⟨fun annotations' ha' => ?_, annotations, ha, hr, hoff⟩
      obtain rfl := Except.ok.inj (ha.symm.trans ha')
      exact hknows
    · rintro ⟨hanswers, annotations, ha, hr, hoff⟩
      exact ⟨annotations, ha, hr, Bool.and_eq_true_iff.mpr ⟨hoff, hanswers annotations ha⟩⟩

lemma gated_reads (hV : E.vocabulary.Standard g) (hne : 0 < tokens.size) {others : List Tree}
    (h : (E.gated true).Reads tokens trees) (h' : (E.gated false).Reads tokens others) :
    trees = others.filter ((E.checker tokens).everywhere ((E.checker tokens).knows .ordinary) {}) := by
  obtain ⟨es, hes, rfl⟩ := h
  obtain ⟨es', hes', rfl⟩ := h'
  have hB := ((E.gated false).reader tokens).builds_tree
  have hL : ((E.gated false).treeParser tokens).Constructed preferShift g := tree_constructed hV
  have htells := hB.tells hL (hB.keeps_spells hV) hne ((E.checker tokens).knows .ordinary)
  rw [htells.accepted_eq_filter gated_restricts ?_ hes' hes htells.start htells.nil]
  · refine List.filter_congr fun t _ => ?_
    rw [List.reverse_singleton, Checker.everywhereAll, Checker.everywhereAll, Bool.and_true, Bool.decide_eq_true]
    rfl
  · rintro p token actions ⟨⟨symbols, hp⟩, _⟩ hc ha
    obtain ⟨_, t, _, _, hvalues, _⟩ := hp.accept hL hV.isolated hc ha
    rw [hvalues, List.length_singleton]

end Gate

end FrontEnd

end Ramify.C
