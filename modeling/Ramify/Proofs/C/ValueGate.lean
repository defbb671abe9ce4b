import Ramify.Proofs.C.DanglingElse
import Ramify.Proofs.C.Declarations
import Ramify.Proofs.C.SharedPool
import Ramify.Proofs.C.Survivors
import Ramify.Proofs.Search.Pruning

namespace Ramify

namespace LR.Construction

variable {g : Grammar}

lemma cellAt_nil (s t : Nat) : (cellAt [] g s t).actions = allActions g s t := by
  refine Cell.ofActions_actions fun c hc hr => ?_
  have hfalse : ([] : List Nat).contains t = true := (Cell.ofActions_conflict hc hr).2
  cases hfalse

lemma cellAt_ne_nil {prefers : List String} {s t : Nat} (h : allActions g s t ≠ []) :
    (cellAt prefers g s t).actions ≠ [] := by
  rw [cellAt, Cell.ofActions]
  split
  · exact h
  · dsimp only
    split
    · rename_i hcond
      obtain ⟨a, ha, hshift⟩ := List.any_eq_true.mp (Bool.and_eq_true_iff.mp hcond).1
      exact List.ne_nil_of_mem (List.mem_filter.mpr ⟨ha, hshift⟩)
    · exact h

lemma table_prunes (prefers : List String) (g : Grammar) :
    (ofGrammar prefers g).table.Prunes (ofGrammar [] g).table := by
  have hgotos : ∀ prefers, (ofGrammar prefers g).table.gotos = (NumberedGrammar.ofGrammar g).collection.transitions.map
      fun row => (gotosOf (NumberedGrammar.ofGrammar g) row).toArray := fun _ => rfl
  have hproductions : ∀ prefers, (ofGrammar prefers g).table.productions = g.productions := fun _ => rfl
  refine ⟨by rw [hproductions, hproductions], by rw [hgotos, hgotos], fun s t => ?_, fun s t => ?_⟩ <;>
    by_cases hs : s < (NumberedGrammar.ofGrammar g).collection.size
  · rw [table_actionsAt hs, table_actionsAt hs, cellAt_nil]
    split
    · exact Cell.ofActions_sublist
    · exact List.Sublist.refl _
  · rw [table_actionsAt_of_le (Nat.not_lt.mp hs)]
    exact List.nil_sublist _
  · rw [table_actionsAt hs, table_actionsAt hs, cellAt_nil]
    split
    · exact cellAt_ne_nil
    · exact id
  · rw [table_actionsAt_of_le (Nat.not_lt.mp hs), table_actionsAt_of_le (Nat.not_lt.mp hs)]
    exact id

end LR.Construction

namespace C

open Search

namespace FrontEnd

variable {E : FrontEnd} {tokens : Array Token} {g : Grammar}

variable (E tokens) in
lemma gated_permit (scopes : Scopes) (role : Role) {parts : List Part} (hparts : parts ≠ []) :
    ((E.gated true).reader tokens).permit scopes role parts = ((E.gated false).reader tokens).permit scopes role parts ∨
      ∃ e, ((E.gated true).reader tokens).permit scopes role parts = .error (.reject e) := by
  obtain ⟨part, rest, rfl⟩ := List.exists_cons_of_ne_nil hparts
  rw [Reader.permit, Reader.permit]
  cases role.use? with
  | none => exact Or.inl rfl
  | some kind =>
    cases kind with
    | typedef => exact Or.inl rfl
    | ordinary =>
      change Reader.permitUse _ scopes .ordinary (part :: rest) = .ok () ∨
        ∃ e, Reader.permitUse _ scopes .ordinary (part :: rest) = .error (.reject e)
      rw [Reader.permitUse, Reader.firstName]
      dsimp only [bind, Except.bind]
      split
      · exact Or.inr ⟨_, rfl⟩
      · exact Or.inl rfl

variable (E tokens) in
lemma gated_interpret (ctx : Context) (production : Nat) {parts : List Part} (hparts : parts ≠ []) :
    ((E.gated true).reader tokens).interpret ctx production parts =
        ((E.gated false).reader tokens).interpret ctx production parts ∨
      ∃ e, ((E.gated true).reader tokens).interpret ctx production parts = .error (.reject e) := by
  by_cases hcovers : E.vocabulary.Covers production
  case neg =>
    exact Or.inl ((Reader.interpret_of_not_covers hcovers ctx parts).trans
      (Reader.interpret_of_not_covers hcovers ctx parts).symm)
  rw [Reader.interpret_of_covers hcovers, Reader.interpret_of_covers hcovers, Reader.interpretAs, Reader.interpretAs]
  rcases gated_permit E tokens ctx.scopes (E.vocabulary.role production) hparts with h | ⟨e, h⟩
  · refine Or.inl ?_
    change (Reader.permit _ _ (E.vocabulary.role production) _ >>= _) =
      (Reader.permit _ _ (E.vocabulary.role production) _ >>= _)
    rw [h]
    rfl
  · refine Or.inr ⟨e, ?_⟩
    change (Reader.permit _ _ (E.vocabulary.role production) _ >>= _) = _
    rw [h]
    rfl

lemma gated_stricter {productions : Array Production} (hne : ∀ p ∈ productions, p.rhs ≠ []) :
    ((E.gated true).treeEngine tokens).builder.Stricter ((E.gated false).treeEngine tokens).builder productions where
  pure := ⟨fun _ _ _ _ _ => rfl, fun _ _ _ _ _ => rfl⟩
  loose := ⟨fun _ _ _ _ _ => rfl, fun _ _ _ _ _ => rfl⟩
  terminal_eq := rfl
  initial_eq := rfl
  shift _ _ _ _ _ := Or.inl rfl
  reduce _ _ ctx p children hp hlen := by
    have hparts : children.map Tree.part ≠ [] := by
      rw [Ne, List.map_eq_nil_iff]
      rintro rfl
      exact hne p hp (List.eq_nil_of_length_eq_zero hlen.symm)
    change (((E.gated true).reader tokens).interpret ctx p.index (children.map Tree.part)).map _ =
        (((E.gated false).reader tokens).interpret ctx p.index (children.map Tree.part)).map _ ∨
      ∃ e, (((E.gated true).reader tokens).interpret ctx p.index (children.map Tree.part)).map _ = _
    rcases gated_interpret E tokens ctx p.index hparts with h | ⟨e, h⟩
    · exact Or.inl (congrArg (Except.map _) h)
    · exact Or.inr ⟨e, by rw [h]; rfl⟩

variable (tokens) in
lemma gated_prunes (hV : E.vocabulary.Standard g) :
    ((E.gated true).treeEngine tokens).Prunes ((E.gated false).treeEngine tokens) where
  table := ⟨rfl, rfl, fun _ _ => List.Sublist.refl _, fun _ _ => id⟩
  builder := by
    refine gated_stricter fun p hp => hV.rhs_ne_nil ?_
    rw [← hV.productions_eq]
    exact hp
  limits_eq := rfl

lemma map_eq_error {α β ε : Type} {x : Except ε α} {f : α → β} {e : ε} (h : x.map f = .error e) : x = .error e := by
  cases x with
  | error e' => exact congrArg _ (Except.error.inj h)
  | ok a => cases h

lemma gated_narrows (hV : E.vocabulary.Standard g) (tokens : Array Token) :
    (∀ trees stats, (E.gated false).parseTokens tokens = .ok (trees, stats) →
      (∃ trees' stats', (E.gated true).parseTokens tokens = .ok (trees', stats') ∧ trees'.Sublist trees) ∨
        ∃ e, ((E.gated true).search tokens).result = .error (.noParse e)) ∧
    ∀ e, ((E.gated false).search tokens).result = .error (.noParse e) →
      ∃ e', ((E.gated true).search tokens).result = .error (.noParse e') := by
  have hnarrows := (gated_prunes tokens hV).narrows tokens {} {} () ()
  have hresult := fun on => (parse_treeEngine (E.gated on) tokens {}).1
  refine ⟨fun trees stats h => ?_, fun e h => ?_⟩
  · rw [parseTokens_eq] at h ⊢
    rw [parseTrees] at h ⊢
    split at h
    · cases h
    · rename_i found hfound
      obtain ⟨rfl, _⟩ := Prod.mk.inj (Except.ok.inj h)
      rcases hnarrows.ok _ hfound with ⟨found', hfound', hsub⟩ | ⟨e, he⟩
      · rw [hfound']
        exact Or.inl ⟨found', _, rfl, hsub⟩
      · exact Or.inr ⟨e, map_eq_error ((hresult true).trans he)⟩
  · obtain ⟨e', he'⟩ := hnarrows.noParse e (by rw [← hresult false]; exact congrArg _ h)
    exact ⟨e', map_eq_error ((hresult true).trans he')⟩

end FrontEnd

/-- A search in a pruned table, with a builder that rejects more, finds some of what the search
finds that it is compared with, or reports that there is no parse. A preference for shifting
prunes the table in this way, and the gate for values makes the builder of C stricter. -/
theorem pruning_narrows :
    (∀ {τ ν κ ε δ δ' : Type} (P : Parser τ ν κ ε δ) (Q : Parser τ ν κ ε δ'), Q.Prunes P →
      ∀ (tokens : Array τ) (before before' : Stats) (store : δ) (store' : δ'),
        Narrows (P.parse before store tokens).result (Q.parse before' store' tokens).result) ∧
    (∀ {text : String} {prefers : List String} {policy policy' : LR.ConflictPolicy} {K L : LR.Construction},
      LR.construct text ⟨[], policy⟩ = .ok K → LR.construct text ⟨prefers, policy'⟩ = .ok L →
      L.table.Prunes K.table ∧ ∀ {τ ν κ ε δ : Type} (P : Parser τ ν κ ε δ), P.table = K.table → P.builder.Pure →
        ∀ (tokens : Array τ) (before : Stats) (store : δ), Narrows (P.parse before store tokens).result
          (({ P with table := L.table }).parse before store tokens).result) ∧
    ∀ V, standard = some V → ∀ (config : Config) (tokens : Array Token), let E := FrontEnd.mk V config
      (∀ trees stats, (E.gated false).parseTokens tokens = .ok (trees, stats) →
        (∃ trees' stats', (E.gated true).parseTokens tokens = .ok (trees', stats') ∧ trees'.Sublist trees) ∨
          ∃ e, ((E.gated true).search tokens).result = .error (.noParse e)) ∧
      ∀ e, ((E.gated false).search tokens).result = .error (.noParse e) →
        ∃ e', ((E.gated true).search tokens).result = .error (.noParse e') := by
  refine ⟨fun P Q h tokens before before' store store' => h.narrows tokens before before' store store', ?_, ?_⟩
  · intro text prefers policy policy' K L hK hL
    have hprunes : L.table.Prunes K.table := by
      obtain ⟨g, hg, rfl⟩ := LR.construct_ofGrammar hK
      obtain ⟨g', hg', rfl⟩ := LR.construct_ofGrammar hL
      obtain rfl := Except.ok.inj (hg.symm.trans hg')
      exact LR.Construction.table_prunes prefers g
    refine ⟨hprunes, fun P hP hpure tokens before store => ?_⟩
    have hQ : Parser.Prunes { P with table := L.table } P := by
      refine ⟨?_, hpure.stricter _, rfl⟩
      rw [hP]
      exact hprunes
    exact hQ.narrows tokens before before store store
  · intro V hV config tokens
    obtain ⟨g, hg⟩ := standard_eq hV
    exact FrontEnd.gated_narrows (E := ⟨V, config⟩) hg tokens

def shiftTable (actions : List Action) : Table where
  version := 1
  terminals := #["a", "end"]
  nonterminals := #["S"]
  productions := #[]
  endMark := 1
  actions := #[#[(0, actions)], #[(1, [.accept])]]
  gotos := #[#[], #[]]

def shiftParser (actions : List Action) : Parser Nat Nat Unit Unit Unit where
  table := shiftTable actions
  builder := ⟨some, (), fun s c token _ => (s, .ok (c, token)), fun s _ _ _ => (s, .error .undefined), fun _ _ => ()⟩

lemma shiftTable_actionsAt (actions : List Action) (s t : Nat) : (shiftTable actions).actionsAt s t =
    if s = 0 ∧ t = 0 then actions else (shiftTable []).actionsAt s t := by
  match s with
  | 0 =>
    have hbisect : ∀ actions : List Action, Table.bisect #[(0, actions)] t 0 1 = 0 := fun actions => by
      rw [Table.bisect]
      rfl
    cases t with
    | zero => simp [Table.actionsAt, shiftTable, Table.find?, hbisect]
    | succ t => simp [Table.actionsAt, shiftTable, Table.find?, hbisect]
  | s + 1 =>
    rw [if_neg fun h => Nat.succ_ne_zero _ h.1]
    rfl

lemma shiftParser_prunes : (shiftParser [.shift 1]).Prunes (shiftParser [.shift 1, .shift 1]) where
  table := by
    refine ⟨rfl, rfl, fun s t => ?_, fun s t => ?_⟩ <;>
      simp only [shiftParser, shiftTable_actionsAt [.shift 1], shiftTable_actionsAt [.shift 1, .shift 1]] <;> split
    · exact List.sublist_of_cons_sublist (List.Sublist.refl _)
    · exact List.Sublist.refl _
    · exact fun _ => List.cons_ne_nil _ _
    · exact id
  builder := Builder.Pure.stricter ⟨fun _ _ _ _ _ => rfl, fun _ _ _ _ _ => rfl⟩ _
  limits_eq := rfl

lemma sizeof_value_previews : (tokenize FrontEnd.sizeofSource).toOption.any (fun tokens =>
    Rules.previews tokens.toArray false (FrontEnd.sizeofMarks [.node "PrimaryExpression" 1, .token,
        .node "PrimaryExpression" 3, .node "UnaryExpression" 2]) [(96, Rules.accepting fun t =>
      !(Checker.mk Rules.outline tokens.toArray).everywhere ((Checker.mk Rules.outline tokens.toArray).knows .ordinary)
        {} t)]) = true := by
  decide +kernel

lemma dangling_found : ∃ found found', ((danglingParser []).parse {} () #[0, 0, 2, 1, 2, 3]).result = .ok found ∧
    ((danglingParser ["e"]).parse {} () #[0, 0, 2, 1, 2, 3]).result = .ok found' ∧ found.length = 2 ∧ found'.length = 1 := by
  have htwo : (((danglingParser []).parse {} () #[0, 0, 2, 1, 2, 3]).result.toOption.map List.length) = some 2 := by
    decide +kernel
  have hone : (((danglingParser ["e"]).parse {} () #[0, 0, 2, 1, 2, 3]).result.toOption.map List.length) = some 1 := by
    decide +kernel
  obtain ⟨found, hok, htwo⟩ := Option.map_eq_some_iff.mp htwo
  obtain ⟨found', hok', hone⟩ := Option.map_eq_some_iff.mp hone
  exact ⟨found, found', toOption_eq_some hok, toOption_eq_some hok', htwo, hone⟩

lemma FrontEnd.exists_gated_apart : ∃ V L tokens, standard = some V ∧ let E := FrontEnd.mk V { limits := L }
    ∃ trees stats trees' stats', (E.gated false).parseTokens tokens = .ok (trees, stats) ∧
      (E.gated true).parseTokens tokens = .ok (trees', stats') ∧ ∃ t ∈ trees, t ∉ trees' := by
  obtain ⟨V, _, hV, _⟩ := exists_vocabulary
  obtain ⟨g, hg⟩ := standard_eq hV
  obtain ⟨tokens, htokens, hvalue⟩ := (Option.any_eq_true _ _).mp sizeof_value_previews
  obtain ⟨tokens', htokens', htype⟩ := (Option.any_eq_true _ _).mp sizeof_previews
  obtain rfl := Option.some.inj (htokens.symm.trans htokens')
  have hne := tokenize_size (toOption_eq_some htokens)
  obtain ⟨t, hasked, L, hL⟩ := exists_parseTokens_of_previews (E := (FrontEnd.mk V {}).gated false) hg hvalue
    List.mem_cons_self hne
  obtain ⟨_, _, L', hL'⟩ := exists_parseTokens_of_previews (E := (FrontEnd.mk V {}).gated true) hg htype
    List.mem_cons_self hne
  -- Limits that serve with the gate and without it.
  let M : Limits := ⟨max L.maxSteps L'.maxSteps, max L.maxCandidates L'.maxCandidates⟩
  obtain ⟨trees, stats, hfree, hmem⟩ := hL M (le_max_left _ _) (le_max_left _ _)
  obtain ⟨trees', stats', hgated, _⟩ := hL' M (le_max_right _ _) (le_max_right _ _)
  refine ⟨V, M, tokens.toArray, hV, trees, stats, trees', stats', hfree, hgated, t, hmem, fun hkept => ?_⟩
  rw [gated_reads (E := FrontEnd.mk V { limits := M }) hg hne (reads_of_parseTokens hgated) (reads_of_parseTokens hfree)]
    at hkept
  have hknown := (List.mem_filter.mp hkept).2
  rw [hg.everywhere_knows_outline, Bool.not_eq_true'] at hasked
  cases hknown.symm.trans hasked

theorem pruning_narrows_two_shifts :
    ((∃ found, ((shiftParser [.shift 1]).parse {} () #[0, 1]).result = .ok found ∧ found.Sublist [0, 0]) ∨
      ∃ e, ((shiftParser [.shift 1]).parse {} () #[0, 1]).result = .error (.noParse e)) ∧
    (∃ found found', ((danglingParser []).parse {} () #[0, 0, 2, 1, 2, 3]).result = .ok found ∧
      ((danglingParser ["e"]).parse {} () #[0, 0, 2, 1, 2, 3]).result = .ok found' ∧
      found'.Sublist found ∧ found'.length = 1 ∧ found.length = 2) ∧
    ∃ V L tokens, standard = some V ∧ let E := FrontEnd.mk V { limits := L }
      ∃ trees stats trees' stats', (E.gated false).parseTokens tokens = .ok (trees, stats) ∧
        (E.gated true).parseTokens tokens = .ok (trees', stats') ∧ trees'.Sublist trees ∧
        ∃ t ∈ trees, t ∉ trees' := by
  have hparse : ((shiftParser [.shift 1, .shift 1]).parse {} () #[0, 1]).result = .ok [0, 0] := by decide +kernel
  refine ⟨(pruning_narrows.1 _ _ shiftParser_prunes #[0, 1] {} {} () ()).ok _ hparse, ?_, ?_⟩
  · obtain ⟨found, found', hfound, hfound', htwo, hone⟩ := dangling_found
    have hnarrows := (pruning_narrows.2.1 (construct_dangling []) (construct_dangling ["e"])).2 (danglingParser []) rfl
      ⟨fun _ _ _ _ _ => rfl, fun _ _ _ _ _ => rfl⟩ #[0, 0, 2, 1, 2, 3] {} ()
    rcases hnarrows.ok found hfound with ⟨others, hothers, hsub⟩ | ⟨e, he⟩
    · obtain rfl := Except.ok.inj (hfound'.symm.trans hothers)
      exact ⟨found, found', hfound, hfound', hsub, hone, htwo⟩
    · cases hfound'.symm.trans he
  · obtain ⟨V, L, tokens, hV, trees, stats, trees', stats', hfree, hgated, hapart⟩ := FrontEnd.exists_gated_apart
    refine ⟨V, L, tokens, hV, trees, stats, trees', stats', hfree, hgated, ?_, hapart⟩
    rcases (pruning_narrows.2.2 V hV { limits := L } tokens).1 trees stats hfree with
      ⟨others, _, hothers, hsub⟩ | ⟨e, he⟩
    · obtain ⟨rfl, _⟩ := Prod.mk.inj (Except.ok.inj (hgated.symm.trans hothers))
      exact hsub
    · have hfailed : ((FrontEnd.mk V { limits := L }).gated true).parseTokens tokens = .error e := by
        rw [FrontEnd.parseTokens, he]
        rfl
      cases hgated.symm.trans hfailed

end C

end Ramify
