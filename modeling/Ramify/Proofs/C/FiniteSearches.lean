import Ramify.Proofs.C.NameCodes
import Ramify.Proofs.C.Survivors
import Ramify.Proofs.Parse.Termination
import Ramify.Proofs.Search.PlainSearch

namespace Ramify.C

namespace Rules

def chains : List String := [
  "TranslationUnit", "ExternalDeclaration", "FunctionDefinition", "BlockItem", "Declaration", "Statement",
  "LabeledStatement", "CompoundStatement", "ExpressionStatement", "SelectionStatement", "IterationStatement",
  "JumpStatement", "InitDeclarator", "StructDeclaration", "StructDeclarator", "Enumerator", "Declarator",
  "DirectDeclarator", "ParameterList", "ParameterDeclaration", "DeclarationSpecifiers", "StorageClassSpecifier",
  "FunctionSpecifier", "SpecifierQualifierList", "TypeSpecifier", "TypedefName", "StructOrUnionSpecifier",
  "EnumSpecifier", "TypeQualifier", "Pointer", "DirectAbstractDeclarator", "Initializer", "AssignmentExpression",
  "ConditionalExpression", "LogicalOrExpression", "LogicalAndExpression", "InclusiveOrExpression",
  "ExclusiveOrExpression", "AndExpression", "EqualityExpression", "RelationalExpression", "ShiftExpression",
  "AdditiveExpression", "MultiplicativeExpression", "CastExpression", "UnaryExpression", "PostfixExpression",
  "PrimaryExpression", "Constant", "StringLiteralList"]

def chainDepth : NamedSymbol → Nat
  | .term _ => chains.length + 1
  | .nonterm name =>
    let codes := chains.map nameCode
    bif Bits.listed (nameCode name) codes then Bits.find (nameCode name) codes + 1 else 0

lemma chained : ∀ r ∈ rules, r.right.length = 1 → r.right.all (fun x => chainDepth (n r.left) < chainDepth x) = true := by
  decide +kernel

end Rules

namespace Vocabulary.Standard

open Rules

variable {V : Vocabulary} {g : Grammar} (h : V.Standard g)

def symbolDepth (g : Grammar) : Symbol → Nat
  | .term _ => chains.length + 1
  | .nonterm i => chainDepth (.nonterm (g.nonterminals.getD i ""))

include h

lemma symbolDepth_eq {x : NamedSymbol} (hx : Grammar.Named rules x) :
    symbolDepth g (Grammar.numberOf rules x) = chainDepth x := by
  cases x with
  | term name => rfl
  | nonterm name =>
    obtain ⟨i, hi⟩ : ∃ i, .nonterm i = Grammar.numberOf rules (.nonterm name) := ⟨_, rfl⟩
    have hname := Grammar.ofRules_nonterminal h.grammar_eq hx hi
    rw [← hi, symbolDepth, Array.getD_eq_getD_getElem?, hname, Option.getD_some]

lemma descends : g.Descends (symbolDepth g) := by
  intro p hp
  refine ⟨h.rhs_ne_nil hp, fun s hs => ?_⟩
  obtain ⟨i, hi⟩ := Array.mem_iff_getElem?.mp hp
  cases i with
  | zero =>
    obtain ⟨start, first, hstart, hfirst, hlhs, hrhs, -⟩ := h.numbered.start
    obtain rfl := Option.some.inj (hi.symm.trans hstart)
    have hrule : rules[0]? = some ⟨1, none, "TranslationUnit", [.nonterm "ExternalDeclaration"]⟩ := rfl
    have hunit : Grammar.Named rules (n "TranslationUnit") := Grammar.named_left (List.mem_of_getElem? hrule)
    obtain rfl := List.singleton_inj.mp (hrhs.symm.trans hs)
    rw [hlhs, ← Grammar.numberOf_start, h.first_eq hfirst, h.symbolDepth_eq Grammar.named_start]
    change _ < symbolDepth g (Grammar.numberOf rules (n "TranslationUnit"))
    rw [h.symbolDepth_eq hunit]
    decide +kernel
  | succ i =>
    obtain ⟨r, hr⟩ := Grammar.ofRules_rule h.grammar_eq hi
    obtain ⟨p', hp', hlhs, hrhs, -⟩ := Grammar.ofRules_production h.grammar_eq hr
    obtain rfl := Option.some.inj (hi.symm.trans hp')
    have hmem := List.mem_of_getElem? hr
    obtain ⟨x, hx, rfl⟩ := List.map_eq_singleton_iff.mp (hrhs.symm.trans hs)
    have hdepth := chained r hmem (by rw [hx]; rfl)
    rw [hx, List.all_cons, List.all_nil, Bool.and_true, decide_eq_true_eq] at hdepth
    rw [hlhs, h.symbolDepth_eq (Grammar.named_left hmem), h.symbolDepth_eq (Grammar.named_right hmem (by rw [hx]; simp))]
    exact hdepth

end Vocabulary.Standard

namespace Reader

variable {R : Reader} {e : FrontError}

lemma permit_kind {scopes : Scopes} {role : Role} {parts : List Part}
    (h : R.permit scopes role parts = .error (.reject e)) : e.kind ≠ .searchLimitExceeded := by
  rw [permit] at h
  split at h
  · split at h
    · cases parts with
      | nil => cases h
      | cons part parts =>
        rw [permitUse, firstName] at h
        dsimp only [bind, Except.bind] at h
        split at h
        · rename_i kind hrefusal
          cases h
          rw [Scopes.refusal?.eq_def] at hrefusal
          rintro rfl
          split at hrefusal <;> cases hrefusal
        · cases h
    · cases h
  · cases h

lemma annotate_error {role : Role} {category : Category} {parts : List Part} {refusal : Refusal FrontError}
    (h : R.annotate role category parts = .error refusal) : refusal = .undefined := by
  cases parts with
  | nil =>
    rw [annotate] at h
    cases hrole : R.roleAnnotations role [] with
    | error refusal' =>
      rw [hrole] at h
      obtain rfl := Except.error.inj h
      cases role <;> cases hrole
      rfl
    | ok annotations =>
      rw [hrole] at h
      cases category <;> cases h <;> rfl
  | cons part parts =>
    obtain ⟨annotations, ha⟩ := R.annotate_defined role category part parts
    rw [ha] at h
    cases h

lemma reduce_kind {pool pool' : Pool} {ctx : Context} {p : Production} {children : List Nat}
    (h : R.reduce pool ctx p children = (pool', .error (.reject e))) : e.kind ≠ .searchLimitExceeded := by
  have hinterpret : R.interpret ctx p.index (children.map pool.part) = .error (.reject e) := by
    rw [reduce] at h
    dsimp only at h
    split at h
    · rename_i hi
      rw [hi]
      exact congrArg _ (Except.error.inj (congrArg Prod.snd h))
    · cases h
  have hcovers : R.vocabulary.Covers p.index := by
    by_contra hnot
    rw [interpret_of_not_covers hnot] at hinterpret
    cases hinterpret
  rw [interpret_of_covers hcovers, interpretAs] at hinterpret
  dsimp only [bind, Except.bind] at hinterpret
  split at hinterpret
  · rename_i hp
    exact permit_kind (hp.trans (congrArg _ (Except.error.inj hinterpret)))
  · split at hinterpret
    · rename_i ha
      cases hinterpret
      cases annotate_error ha
    · split at hinterpret
      · rename_i hc
        obtain rfl := Except.error.inj hinterpret
        rw [checkSpecifiers.eq_def] at hc
        split at hc
        · split at hc <;> cases hc
          intro hkind
          cases hkind
        · split at hc <;> cases hc
          intro hkind
          cases hkind
        · cases hc
      · cases hinterpret

end Reader

namespace FrontEnd

variable {E : FrontEnd} {tokens : Array Token} {g : Grammar}

def within (E : FrontEnd) (L : Search.Limits) : FrontEnd := { E with config.limits := L }

lemma noParse_kind {e : FrontError} (h : (E.search tokens).result = .error (.noParse e)) :
    e.kind ≠ .searchLimitExceeded := by
  refine Search.Parser.noParse_error (Q := fun e => e.kind ≠ .searchLimitExceeded) (fun token _ hkind => ?_)
    (fun _ _ _ _ _ _ hshift => ?_) (fun _ _ _ _ _ _ hreduce => Reader.reduce_kind hreduce) h
  · have hunexpected : (Reader.unexpected token).kind = .searchLimitExceeded := hkind
    cases hunexpected
  · cases congrArg Prod.snd hshift

lemma survivors?_isSome (hV : E.vocabulary.Standard g) {source : List UInt8} {list : List Token}
    (ht : tokenize source = .ok list)
    (hlimit : ∀ failure, (E.search list.toArray).result = .error failure → failure.isLimit = false) :
    ∃ survivors, E.survivors? source = some survivors := by
  cases hp : E.parseTokens list.toArray with
  | error e =>
    refine ⟨[], ?_⟩
    rw [survivors?, analyze_error ht hp]
    refine if_neg ?_
    rw [parseTokens] at hp
    cases hr : (E.search list.toArray).result with
    | ok roots =>
      rw [hr] at hp
      cases hp
    | error failure =>
      rw [hr] at hp
      obtain rfl := Except.error.inj hp
      rcases search_failure hV (tokenize_size ht) hr with ⟨e, rfl⟩ | ⟨steps, rfl⟩ | ⟨limit, rfl⟩
      · exact noParse_kind hr
      · cases hlimit _ hr
      · cases hlimit _ hr
  | ok found =>
    rw [survivors?, analyze_ok ht hp]
    cases (E.checker list.toArray).sort found.1 with
    | ok sorted => exact ⟨sorted.survivors, rfl⟩
    | error production => exact ⟨[], rfl⟩

section Limits

variable (hV : E.vocabulary.Standard g) (hne : 0 < tokens.size)

include hV hne

lemma exists_limits : ∃ L₀ : Search.Limits, ∀ L : Search.Limits, L₀.maxSteps ≤ L.maxSteps →
    L₀.maxCandidates ≤ L.maxCandidates →
      ∀ failure, ((E.within L).search tokens).result = .error failure → failure.isLimit = false := by
  have hends : (E.parser tokens).Ends tokens ((E.parser tokens).start {}) :=
    Search.Parser.Constructed.terminates ⟨hV.table_eq, hV.numbered⟩ (Builder.keeps_any _ _ _) hV.descends hne _
  exact hends.exists_limits {} (Array.size_pos_iff.mp hne)

variable (hlimit : ∀ failure, (E.search tokens).result = .error failure → failure.isLimit = false)

include hlimit

lemma exists_run : ∃ T, (E.parser tokens).run tokens E.config.limits.maxSteps ((E.parser tokens).start {}) = (T, none) := by
  rcases Search.Parser.parse_result (P := E.parser tokens) {} {} (Array.size_pos_iff.mp hne) with
    ⟨T, failure, hT, hr⟩ | ⟨T, hT, _⟩
  · rcases search_failure hV hne hr with ⟨e, rfl⟩ | ⟨steps, rfl⟩ | ⟨limit, rfl⟩
    · exact absurd rfl (Search.Parser.run_ne_noParse hT e)
    · cases hlimit _ hr
    · cases hlimit _ hr
  · exact ⟨T, hT⟩

lemma parseTokens_of_accepts {t : Tree} (h : (E.treeParser tokens).Accepts tokens () [t]) :
    ∃ trees stats, E.parseTokens tokens = .ok (trees, stats) ∧ t ∈ trees := by
  have hmem : ∀ {trees}, E.Reads tokens trees → t ∈ trees := by
    rintro _ ⟨es, hes, rfl⟩
    exact hes.mem_accepted_iff.mpr ⟨[], h⟩
  cases hr : (E.search tokens).result with
  | ok roots =>
    have hp : E.parseTokens tokens = .ok (roots.map (E.search tokens).store.tree, (E.search tokens).stats) := by
      rw [parseTokens, hr]
    exact ⟨_, _, hp, hmem (reads_of_parseTokens hp)⟩
  | error failure =>
    rcases search_failure hV hne hr with ⟨e, rfl⟩ | ⟨steps, rfl⟩ | ⟨limit, rfl⟩
    · cases hmem (reads_of_noParse hr)
    · cases hlimit _ hr
    · cases hlimit _ hr

end Limits

theorem exists_survivors (hV : E.vocabulary.Standard g) {source : List UInt8} {list : List Token}
    (ht : tokenize source = .ok list) : ∃ L₀ : Search.Limits, ∀ L : Search.Limits, L₀.maxSteps ≤ L.maxSteps →
      L₀.maxCandidates ≤ L.maxCandidates → ∃ survivors, (E.within L).survivors? source = some survivors := by
  obtain ⟨L₀, hL₀⟩ := exists_limits hV (tokenize_size ht)
  exact ⟨L₀, fun L hsteps hcandidates => survivors?_isSome (E := E.within L) hV ht (hL₀ L hsteps hcandidates)⟩

end FrontEnd

end Ramify.C
