import Ramify.Proofs.C.ElseAttachment
import Ramify.Proofs.C.FiniteSearches
import Ramify.Proofs.Search.ReachedPaths

/-! Texts of C with a sketch of a tree. What the front end makes of the steps of the tree depends on the rules
alone, so it can be computed without the table; and the search with the table comes to each of these
steps. -/

namespace Ramify.C

open Search

namespace Rules

def outline : Vocabulary where
  table := ⟨0, #[], #[], (⟨0, "", rules.length, 1, []⟩ :: rules.zipIdx.map fun (r, i) =>
    ⟨i + 1, "", i, 1, r.right.map fun _ => .term 0⟩).toArray, 0, #[], #[]⟩
  terminals := #[]
  roles := (.other :: rules.map roleOf).toArray
  categories := (rules.map fun r => categoryOf r.left).toArray

section Outline

variable {i : Nat} {r : Rule}

lemma outline_production (hr : rules[i]? = some r) : ∃ p, outline.table.productions[i + 1]? = some p ∧ p.index = i + 1 ∧
    p.rhs.length = r.right.length ∧ outline.role? (i + 1) = some (roleOf r) ∧
    outline.category? (i + 1) = some (categoryOf r.left) := by
  have hp : outline.table.productions[i + 1]? = some ⟨i + 1, "", i, 1, r.right.map fun _ => .term 0⟩ := by
    rw [outline, List.getElem?_toArray, List.getElem?_cons_succ, List.getElem?_map, List.getElem?_zipIdx, hr]
    simp
  refine ⟨_, hp, rfl, List.length_map _, ?_, ?_⟩
  · rw [Vocabulary.role?, outline, List.getElem?_toArray, List.getElem?_cons_succ, List.getElem?_map, hr]
    rfl
  · rw [Vocabulary.category?, hp, Option.bind_some, outline]
    dsimp only
    rw [List.getElem?_toArray, List.getElem?_map, hr]
    rfl

lemma outline_none (h : rules[i]? = none) : outline.table.productions[i + 1]? = none ∧ outline.role? (i + 1) = none := by
  constructor
  · rw [outline, List.getElem?_toArray, List.getElem?_cons_succ, List.getElem?_map, List.getElem?_zipIdx, h]
    rfl
  · rw [Vocabulary.role?, outline, List.getElem?_toArray, List.getElem?_cons_succ, List.getElem?_map, h]
    rfl

lemma outline_zero : ∃ p, outline.table.productions[0]? = some p ∧ p.index = 0 ∧ outline.role? 0 = some .other ∧
    outline.category? 0 = none := by
  have hp : outline.table.productions[0]? = some ⟨0, "", rules.length, 1, []⟩ := by
    rw [outline, List.getElem?_toArray, List.getElem?_cons_zero]
  refine ⟨_, hp, rfl, ?_, ?_⟩
  · rw [Vocabulary.role?, outline, List.getElem?_toArray, List.getElem?_cons_zero]
  · rw [Vocabulary.category?, hp, Option.bind_some, outline]
    dsimp only
    rw [List.getElem?_toArray, List.getElem?_map]
    simp

end Outline

def planned (tokens : Array Token) (marks : List Mark) : Option (List Deed) :=
  if tokens.back?.map Token.kind = some .endMark ∧ ∀ token ∈ tokens, token.kind ≠ .keyword .else_ then
    sketched (tokens.toList.dropLast.map fun token => token.kind.terminal) marks
  else none

def rehearse (tokens : Array Token) (gateValues : Bool) (deeds : List Deed) : Option (Load Tree Context Unit) :=
  (Reader.mk outline tokens gateValues).treeBuilder.rehearse outline.table.productions tokens () deeds

/-- What is shown by a sketch of tokens: behind the given numbers of deeds, what is made of them and which is next. -/
def previews (tokens : Array Token) (gateValues : Bool) (marks : List Mark)
    (stops : List (Nat × (Load Tree Context Unit → Deed → Bool))) : Bool :=
  (planned tokens marks).any fun deeds => stops.all fun (k, shows) =>
    ((deeds ++ [.accept])[k]?).any fun deed =>
      (rehearse tokens gateValues (deeds.take k)).any fun l => shows l deed

def accepting (asked : Tree → Bool) (l : Load Tree Context Unit) (deed : Deed) : Bool :=
  match deed, l.values with
  | .accept, [t] => asked t
  | _, _ => false

lemma exists_of_previews {tokens : Array Token} {gateValues : Bool} {marks : List Mark} {k : Nat}
    {stops : List (Nat × (Load Tree Context Unit → Deed → Bool))} {shows : Load Tree Context Unit → Deed → Bool}
    (h : previews tokens gateValues marks stops = true) (hk : (k, shows) ∈ stops) :
    ∃ deeds front l deed, planned tokens marks = some deeds ∧ front ++ [deed] <+: deeds ++ [.accept] ∧
      rehearse tokens gateValues front = some l ∧ shows l deed = true := by
  obtain ⟨deeds, hd, h⟩ := (Option.any_eq_true _ _).mp h
  obtain ⟨deed, hdeed, h⟩ := (Option.any_eq_true _ _).mp (List.all_eq_true.mp h _ hk)
  obtain ⟨l, hl, h⟩ := (Option.any_eq_true _ _).mp h
  refine ⟨deeds, deeds.take k, l, deed, hd, ?_, hl, h⟩
  have hle : k ≤ deeds.length := by
    have hlt := (List.getElem?_eq_some_iff.mp hdeed).1
    rw [List.length_append, List.length_singleton] at hlt
    exact Nat.le_of_lt_succ hlt
  have htake := List.take_add_one (l := deeds ++ [.accept]) (i := k)
  rw [hdeed, List.take_append_of_le_length hle] at htake
  exact htake ▸ List.take_prefix _ _

end Rules

open Rules

lemma Reader.interpretAs_congr {V W : Vocabulary} (h : ∀ part : Part, part.category? V = part.category? W)
    (tokens : Array Token) (gateValues : Bool) :
    (Reader.mk V tokens gateValues).interpretAs = (Reader.mk W tokens gateValues).interpretAs := by
  have hdeclares : (Reader.mk V tokens gateValues).declaredBy = (Reader.mk W tokens gateValues).declaredBy := by
    funext parts
    simp only [declaredBy, h]
  have hdeclarator : (Reader.mk V tokens gateValues).isDeclarator = (Reader.mk W tokens gateValues).isDeclarator := by
    funext part
    simp only [isDeclarator, h]
  have hparams : (Reader.mk V tokens gateValues).paramsOf = (Reader.mk W tokens gateValues).paramsOf := by
    funext role parts
    simp only [paramsOf, hdeclarator, h]
  have hcategory : (Reader.mk V tokens gateValues).categoryAnnotations =
      (Reader.mk W tokens gateValues).categoryAnnotations := by
    funext role category parts ann
    rw [categoryAnnotations.eq_def, categoryAnnotations.eq_def, hdeclares, hparams]
    rfl
  funext ctx role category parts
  rw [interpretAs, interpretAs, annotate, annotate, hcategory]
  rfl

namespace Checker

variable {K K' : Checker} (hrole : ∀ p, K.vocabulary.role p = K'.vocabulary.role p)
  (hcategory : ∀ p, K.vocabulary.category p = K'.vocabulary.category p) (htokens : K.tokens = K'.tokens)

include hrole hcategory htokens

lemma after_congr (ctx : Context) (t : Tree) : K.after ctx t = K'.after ctx t := by
  induction t using Tree.induction generalizing ctx with
  | leaf token _ => rw [after, after, htokens]
  | node p _ annotations children ih =>
    have hall : K.afterAll ctx children = K'.afterAll ctx children := by
      induction children generalizing ctx with
      | nil => rfl
      | cons t ts ihs =>
        rw [afterAll, afterAll, ih t List.mem_cons_self, ihs fun u hu => ih u (List.mem_cons_of_mem _ hu)]
    rw [after, after, hall, hrole, hcategory]

lemma afterAll_congr (ctx : Context) (ts : List Tree) : K.afterAll ctx ts = K'.afterAll ctx ts := by
  induction ts generalizing ctx with
  | nil => rfl
  | cons t ts ih => rw [afterAll, afterAll, after_congr hrole hcategory htokens, ih]

lemma everywhere_congr (f : Query) (ctx : Context) (t : Tree) : K.everywhere f ctx t = K'.everywhere f ctx t := by
  induction t using Tree.induction generalizing ctx with
  | leaf => rfl
  | node p _ annotations children ih =>
    have hall : ∀ ctx, K.everywhereAll f ctx children = K'.everywhereAll f ctx children := by
      induction children with
      | nil => exact fun _ => rfl
      | cons t ts ihs =>
        intro ctx
        rw [everywhereAll, everywhereAll, ih t List.mem_cons_self, after_congr hrole hcategory htokens,
          ihs fun u hu => ih u (List.mem_cons_of_mem _ hu)]
    rw [everywhere, everywhere, hall, afterAll_congr hrole hcategory htokens]

end Checker

namespace Vocabulary.Standard

variable {V : Vocabulary} {g : Grammar} (h : V.Standard g) {tokens : Array Token} {gateValues : Bool}

include h

lemma category_zero : V.category 0 = .other := by
  obtain ⟨start, _, hstart, _, hlhs, _⟩ := h.numbered.start
  have hnumber : .nonterm start.lhs = Grammar.numberOf rules (.nonterm Grammar.startName) := by
    rw [hlhs, Grammar.numberOf_start]
  have hstart' : (LR.Construction.ofGrammar preferShift g).table.productions[0]? = some start := hstart
  exact ofTable_category h.table (Grammar.ofRules_nonterminals_nodup h.grammar_eq) hstart'
    (Grammar.ofRules_nonterminal h.grammar_eq Grammar.named_start hnumber)

lemma productions_none {i : Nat} (hr : rules[i]? = none) : V.table.productions[i + 1]? = none := by
  rw [h.productions_eq]
  refine Option.eq_none_iff_forall_ne_some.mpr fun p hp => ?_
  obtain ⟨r, hr'⟩ := Grammar.ofRules_rule h.grammar_eq hp
  cases hr.symm.trans hr'

lemma role_outline (production : Nat) : outline.role production = V.role production := by
  cases production with
  | zero =>
    obtain ⟨start, _, hstart, _⟩ := h.numbered.start
    have hlookup := h.lookup_role hstart fun _ _ _ hzero => absurd hzero (Nat.succ_ne_zero _).symm
    obtain ⟨_, _, _, hrole, _⟩ := outline_zero
    rw [ofTable_role h.table (Grammar.ofRules_labels_nodup h.grammar_eq) h.numbered.index_eq hstart, hlookup,
      Option.getD_none, role_of_role? hrole]
  | succ i =>
    cases hr : rules[i]? with
    | some r =>
      obtain ⟨_, _, _, _, hrole, _⟩ := outline_production hr
      rw [h.role_eq hr, role_of_role? hrole]
    | none =>
      have hnone : V.role? (i + 1) = none := by
        rw [role?, Array.getElem?_eq_none_iff, ofTable_roles_size h.table, ← Array.getElem?_eq_none_iff]
        exact h.productions_none hr
      rw [role, role, hnone, (outline_none hr).2]

lemma category_outline (production : Nat) : outline.category production = V.category production := by
  cases production with
  | zero =>
    obtain ⟨_, _, _, _, hnone⟩ := outline_zero
    rw [h.category_zero, category, hnone]
    rfl
  | succ i =>
    cases hr : rules[i]? with
    | some r =>
      obtain ⟨_, _, _, _, _, hcategory⟩ := outline_production hr
      rw [h.category_eq hr, category_of_category? hcategory]
    | none =>
      rw [category, category, category?, category?, h.productions_none hr, (outline_none hr).1, Option.bind_none,
        Option.bind_none]

lemma part_category?_outline (part : Part) : part.category? outline = part.category? V := by
  rw [Part.category?, Part.category?]
  cases part.kind with
  | terminal _ => rfl
  | nonterminal p => exact congrArg some (h.category_outline p)

lemma everywhere_knows_outline (kind : NameKind) (t : Tree) :
    (Checker.mk outline tokens).everywhere ((Checker.mk outline tokens).knows kind) {} t =
      (Checker.mk V tokens).everywhere ((Checker.mk V tokens).knows kind) {} t := by
  have hknows : (Checker.mk outline tokens).knows kind = (Checker.mk V tokens).knows kind := by
    funext ctx p annotations children
    rw [Checker.knows, Checker.knows, h.role_outline]
    rfl
  rw [hknows]
  refine Checker.everywhere_congr (fun p => ?_) (fun p => ?_) ?_ _ _ _
  · exact h.role_outline p
  · exact h.category_outline p
  · rfl

lemma interpret_outline {i : Nat} {r : Rule} (hr : rules[i]? = some r) (ctx : Context) (parts : List Part) :
    (Reader.mk outline tokens gateValues).interpret ctx (i + 1) parts =
      (Reader.mk V tokens gateValues).interpret ctx (i + 1) parts := by
  obtain ⟨_, _, _, _, hrole, hcategory⟩ := outline_production hr
  have hcovers : outline.Covers (i + 1) := ⟨Option.isSome_of_eq_some hrole, Option.isSome_of_eq_some hcategory⟩
  rw [Reader.interpret_of_covers (R := ⟨outline, tokens, gateValues⟩) hcovers,
    Reader.interpret_of_covers (R := ⟨V, tokens, gateValues⟩) (h.covers_rule hr), Reader.interpretAs_congr h.part_category?_outline]
  dsimp only
  rw [h.role_outline, h.category_outline]

lemma perform_outline {l l' : Load Tree Context Unit} {deed : Deed}
    (hl : (Reader.mk outline tokens gateValues).treeBuilder.perform outline.table.productions tokens l deed = some l') :
    (Reader.mk V tokens gateValues).treeBuilder.perform V.table.productions tokens l deed = some l' := by
  cases deed with
  | shift => exact hl
  | accept => cases hl
  | reduce index =>
    obtain ⟨p, ctx, t, store, hp, hb, rfl⟩ := Builder.perform_reduce hl
    cases index with
    | zero =>
      obtain ⟨p', hp', hindex, _, hnone⟩ := outline_zero
      obtain rfl := Option.some.inj (hp.symm.trans hp')
      obtain ⟨annotations, ha, _⟩ := (Reader.treeBuilder_ok_iff _).mp hb
      have hcategory := (Reader.covers_of_annotationsOf _ ha).2
      rw [hindex, hnone] at hcategory
      cases hcategory
    | succ i =>
      cases hr : rules[i]? with
      | none => cases hp.symm.trans (outline_none hr).1
      | some r =>
        obtain ⟨p', hp', hindex, hlen, _⟩ := outline_production hr
        obtain rfl := Option.some.inj (hp.symm.trans hp')
        obtain ⟨q, hq, _, hrhs, _⟩ := Grammar.ofRules_production h.grammar_eq hr
        have hlen' : q.rhs.length = p.rhs.length := by rw [hrhs, List.length_map, hlen]
        have hreduce : (Reader.mk V tokens gateValues).treeBuilder.reduce l.store l.context q
            (l.values.take q.rhs.length).reverse = (store, .ok (ctx, t)) := by
          rw [← hb, hlen', Reader.treeBuilder, Reader.treeBuilder]
          dsimp only
          rw [h.numbered.index_eq _ q hq, hindex, h.interpret_outline hr]
        rw [Builder.perform, h.productions_eq, hq]
        dsimp only
        rw [hreduce, hlen']

lemma rehearse_eq {l : Load Tree Context Unit} {deeds : List Deed} (hl : rehearse tokens gateValues deeds = some l) :
    (Reader.mk V tokens gateValues).treeBuilder.rehearse V.table.productions tokens () deeds = some l := by
  induction deeds using List.reverseRecOn generalizing l with
  | nil =>
    rw [rehearse, Builder.rehearse_nil] at hl
    rw [Builder.rehearse_nil]
    exact hl
  | append_singleton deeds deed ih =>
    rw [rehearse, Builder.rehearse_concat] at hl
    obtain ⟨l₀, hl₀, hl⟩ := Option.bind_eq_some_iff.mp hl
    rw [Builder.rehearse_concat, ih hl₀, Option.bind_some]
    exact h.perform_outline hl

lemma terminal?_endMark : V.terminal? .endMark = some g.endTerminal := by
  rw [ofTable_terminal? h.table]
  rfl

lemma tells : Grammar.Tells rules (fun token : Token => V.terminal? token.kind) (fun token => token.kind.terminal) := by
  rintro token ⟨r, hr, hright⟩
  have hnamed : token.kind.terminal ∈ g.terminals := by
    rw [Grammar.ofRules_terminals h.grammar_eq, List.mem_toArray]
    exact Grammar.named_right hr hright
  have hfind : ((LR.Construction.ofGrammar preferShift g).table.terminal? token.kind.terminal).isSome := by
    rw [Table.terminal?, Array.findIdx?_isSome, Array.any_eq_true']
    exact ⟨_, hnamed, beq_self_eq_true _⟩
  obtain ⟨u, hu⟩ := Option.isSome_iff_exists.mp hfind
  have hterminal : V.terminal? token.kind = some u := by
    rw [ofTable_terminal? h.table, terminalOf, if_neg, hu]
    intro hend
    dsimp only at hright
    rw [hend] at hright
    exact (sides r hr).1 hright
  exact hterminal.trans (congrArg some (Symbol.term.inj (Grammar.numberOf_term (h.terminal_name hterminal))).symm)

lemma exists_parse_of_planned {marks : List Mark} {deeds : List Deed} (hd : planned tokens marks = some deeds) :
    EndsOnce (fun token => V.terminal? token.kind) g.endTerminal tokens ∧
      ∃ tree : ParseTree Token, tree.IsParse (fun token => V.terminal? token.kind) g tokens ∧ tree.deeds = deeds ∧
        Parser.Keeps preferShift g (fun token => V.terminal? token.kind) tokens (tree.ends 0) := by
  obtain ⟨⟨hlast, helse⟩, hd⟩ := Option.ite_none_right_eq_some.mp hd
  obtain ⟨last, hback, hkind⟩ := Option.map_eq_some_iff.mp hlast
  have hinput : tokens.toList = tokens.toList.dropLast ++ [last] := by
    rw [List.dropLast_append_getLast?]
    rwa [Array.getLast?_toList]
  have hend : V.terminal? last.kind = some g.endTerminal := hkind ▸ h.terminal?_endMark
  obtain ⟨he, tree, htree, hdeeds⟩ := exists_parse_of_sketch h.grammar_eq h.tells hinput hend hd
  refine ⟨he, tree, htree, hdeeds, keeps_of_not_followed h fun _ _ _ stop token u _ htok hu hterminal => ?_⟩
  have hname := h.terminal_name hterminal
  obtain ⟨_, _, _, _, r, hr, _, _, hright⟩ := ifThen_rule
  have hnamed : Grammar.Named rules (t "else") :=
    Grammar.named_right hr (hright ▸ List.mem_append_right _ List.mem_cons_self)
  have hkind : Grammar.Named rules (t token.kind.terminal) := List.mem_of_getElem? hname
  have heq := Grammar.numberOf_inj hnamed hkind (hu.trans (Grammar.numberOf_term hname).symm)
  exact helse token (Array.mem_of_getElem? htok) (kind_else (NamedSymbol.term.inj heq).symm)

end Vocabulary.Standard

namespace FrontEnd

variable {E : FrontEnd} {tokens : Array Token} {g : Grammar} {marks : List Mark} (hV : E.vocabulary.Standard g)

include hV

lemma exists_path_of_previews {k : Nat} {stops : List (Nat × (Load Tree Context Unit → Deed → Bool))}
    {shows : Load Tree Context Unit → Deed → Bool} (h : previews tokens E.config.gateValues marks stops = true)
    (hk : (k, shows) ∈ stops) : ∃ q token actions action,
      Relation.ReflTransGen ((E.treeParser tokens).MovesTo tokens) ((E.treeParser tokens).start ()).path q ∧
      (E.treeParser tokens).cell tokens q = some (token, actions) ∧ action ∈ actions ∧
      shows (q.load ()) action.deed = true := by
  obtain ⟨deeds, front, l, deed, hd, hpre, hl, hshows⟩ := exists_of_previews h hk
  obtain ⟨he, tree, htree, rfl, hkeeps⟩ := hV.exists_parse_of_planned hd
  obtain ⟨q, token, actions, action, hq, hload, hc, ha, rfl⟩ := (tree_constructed hV).exists_path_within hV.isolated he
    (end_not_preferred hV) htree hkeeps hpre (hV.rehearse_eq hl)
  obtain rfl : l = q.load () := hload.symm
  exact ⟨q, token, actions, action, hq, hc, ha, hshows⟩

lemma exists_reached_of_previews {fuel : Nat} {T : State Nat Context FrontError Pool} {k : Nat}
    {stops : List (Nat × (Load Tree Context Unit → Deed → Bool))} {shows : Load Tree Context Unit → Deed → Bool}
    (h : previews tokens E.config.gateValues marks stops = true) (hk : (k, shows) ∈ stops)
    (hrun : (E.parser tokens).run tokens fuel ((E.parser tokens).start {}) = (T, none)) :
    ∃ S token actions action l, (E.parser tokens).Reaches tokens ((E.parser tokens).start {}) S ∧
      (E.parser tokens).cell tokens S.path = some (token, actions) ∧ action ∈ actions ∧ shows l action.deed = true ∧
      S.path.values.map S.store.part = l.values.map Tree.part := by
  obtain ⟨q, token, actions, action, hq, hc, ha, hshows⟩ := exists_path_of_previews hV h hk
  obtain ⟨S, hS, _, hviews⟩ := treeParser_mirrors.exists_reached hrun hq
  exact ⟨S, token, actions, action, q.load (), hS, (treeParser_mirrors.cell_eq hviews).symm.trans hc, ha, hshows,
    Pool.parts_eq hviews.values⟩

section Accepting

variable {k : Nat} {stops : List (Nat × (Load Tree Context Unit → Deed → Bool))} {asked : Tree → Bool}
  (h : previews tokens E.config.gateValues marks stops = true) (hk : (k, accepting asked) ∈ stops)

include h hk

lemma exists_accepts_of_previews : ∃ t, asked t = true ∧ (E.treeParser tokens).Accepts tokens () [t] := by
  obtain ⟨q, token, actions, action, hq, hc, ha, hshows⟩ := exists_path_of_previews hV h hk
  cases action with
  | accept =>
    unfold accepting at hshows
    split at hshows
    · rename_i t _ hvalues
      exact ⟨t, hshows, q, token, actions, hq, hc, ha, hvalues⟩
    · cases hshows
  | shift _ | reduce _ => cases hshows

lemma exists_parseTokens_of_previews (hne : 0 < tokens.size) : ∃ t, asked t = true ∧ ∃ L₀ : Search.Limits,
    ∀ L : Search.Limits, L₀.maxSteps ≤ L.maxSteps → L₀.maxCandidates ≤ L.maxCandidates →
      ∃ trees stats, (E.within L).parseTokens tokens = .ok (trees, stats) ∧ t ∈ trees := by
  obtain ⟨t, ht, haccepts⟩ := exists_accepts_of_previews hV h hk
  obtain ⟨L₀, hL₀⟩ := exists_limits hV hne
  exact ⟨t, ht, L₀, fun L hsteps hcandidates =>
    parseTokens_of_accepts (E := E.within L) hV hne (hL₀ L hsteps hcandidates) haccepts⟩

end Accepting

end FrontEnd

section Loop

def loopTokens : Array Token := #[⟨.keyword .void, "void", {}, none⟩, ⟨.identifier, "f", {}, none⟩,
  ⟨.punctuator .leftParen, "(", {}, none⟩, ⟨.punctuator .rightParen, ")", {}, none⟩,
  ⟨.punctuator .leftBrace, "\x7b", {}, none⟩, ⟨.keyword .for_, "for", {}, none⟩,
  ⟨.punctuator .leftParen, "(", {}, none⟩, ⟨.punctuator .semicolon, ";", {}, none⟩,
  ⟨.punctuator .semicolon, ";", {}, none⟩, ⟨.punctuator .rightParen, ")", {}, none⟩,
  ⟨.identifier, "a", {}, none⟩, ⟨.punctuator .asterisk, "*", {}, none⟩, ⟨.identifier, "b", {}, none⟩,
  ⟨.punctuator .semicolon, ";", {}, none⟩, ⟨.punctuator .rightBrace, "\x7d", {}, none⟩, .endAt ⟨1, 1⟩]

def loopMarks : List Mark := [
  .token, .node "TypeSpecifier" 1, .token, .node "DirectDeclarator" 1, .token, .token, .node "DirectDeclarator" 3,
  .token, .token, .token, .token, .node "ExpressionStatement" 1, .token, .node "ExpressionStatement" 1, .token,
  .token, .node "PrimaryExpression" 1, .token, .token, .node "PrimaryExpression" 1, .node "MultiplicativeExpression" 3,
  .token, .node "ExpressionStatement" 2, .node "IterationStatement" 6, .token, .node "CompoundStatement" 3,
  .node "FunctionDefinition" 3]

def loopClosing (l : Load Tree Context Unit) (deed : Deed) : Bool :=
  match deed with
  | .reduce index => outline.role index = .forLoop ∧ outline.category index = .iterationStatement ∧
      (l.values.countP fun t => t.part.category? outline = some .blockOpen) = 1 ∧
      (l.values.countP fun t => (t.token?.bind (loopTokens[·]?)).any fun token => token.kind = .keyword .for_) = 1
  | _ => false

lemma loop_previews :
    previews loopTokens true loopMarks [(46, loopClosing), (55, accepting fun _ => true)] = true := by
  decide +kernel

end Loop

end Ramify.C
