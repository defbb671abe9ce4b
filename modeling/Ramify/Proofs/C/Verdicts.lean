import Ramify.Proofs.C.FormedTrees
import Ramify.Proofs.C.NameCodes
import Ramify.Proofs.C.RenamedParses
import Ramify.Proofs.C.TreeSpans
import Ramify.Proofs.C.TypedefNames

/-! The verdicts of the front end. The candidates of a text are parted into those that pass the scope check and
those that fail it, by their numbers. One survivor is the result, several are an ambiguity, and with none the
error is that of a candidate which came as far in the text as any other. -/

namespace Ramify

instance : Std.TransOrd Position :=
  inferInstanceAs (Std.TransCmp (compareLex (compareOn Position.line) (compareOn Position.column)))

instance : Std.TransOrd Span :=
  inferInstanceAs (Std.TransCmp (compareLex (compareOn Span.start) (compareOn Span.stop)))

namespace C

namespace Checker

variable {K : Checker} {trees : List Tree} {sorted : Sorted} {w w' : Walk} {todo : List Work} {work : Work}
  {f : Fault} {first : ℕ}

/-- The candidates with the numbers in `kept` survive, in this order, and all others are rejected, in the order
of their numbers and each with its own error. -/
structure Parts (K : Checker) (trees : List Tree) (sorted : Sorted) (kept : List ℕ) : Prop where
  survivors : List.Forall₂ (fun i t => trees[i]? = some t ∧ K.check t = .ok ()) kept sorted.survivors
  rejected : ∀ r ∈ sorted.rejected, ∃ t, trees[r.1]? = some t ∧ K.check t = .error (.scope r.2)
  kept_lt : kept.Pairwise (· < ·)
  rejected_lt : (sorted.rejected.map Prod.fst).Pairwise (· < ·)
  perm : (kept ++ sorted.rejected.map Prod.fst).Perm (List.range trees.length)

lemma parts_of_sortFrom (h : K.sortFrom first trees = .ok sorted) : ∃ kept,
    List.Forall₂ (fun i t => (t, i) ∈ trees.zipIdx first ∧ K.check t = .ok ()) kept sorted.survivors ∧
    (∀ r ∈ sorted.rejected, ∃ t, (t, r.1) ∈ trees.zipIdx first ∧ K.check t = .error (.scope r.2)) ∧
    kept.Sublist (List.range' first trees.length) ∧
    (sorted.rejected.map Prod.fst).Sublist (List.range' first trees.length) ∧
    (kept ++ sorted.rejected.map Prod.fst).Perm (List.range' first trees.length) := by
  induction trees generalizing first sorted with
  | nil =>
    cases h
    exact ⟨[], .nil, by simp, by simp, by simp, by simp⟩
  | cons t trees ih =>
    rw [sortFrom] at h
    simp only [List.zipIdx_cons, List.length_cons, List.range'_succ, List.mem_cons]
    cases hc : K.check t with
    | ok u =>
      rw [hc] at h
      obtain ⟨others, hothers, h⟩ := Grammar.ok_of_bind h
      cases h
      obtain ⟨kept, hkept, hrejected, hsub, hsub', hperm⟩ := ih hothers
      refine ⟨first :: kept, .cons ⟨Or.inl rfl, hc⟩ (hkept.imp fun i t h => ⟨Or.inr h.1, h.2⟩), fun r hr => ?_,
        hsub.cons_cons first, hsub'.cons first, hperm.cons first⟩
      obtain ⟨t', hmem, hcheck⟩ := hrejected r hr
      exact ⟨t', Or.inr hmem, hcheck⟩
    | error e =>
      rw [hc] at h
      cases e with
      | scope e =>
        obtain ⟨others, hothers, h⟩ := Grammar.ok_of_bind h
        cases h
        obtain ⟨kept, hkept, hrejected, hsub, hsub', hperm⟩ := ih hothers
        refine ⟨kept, hkept.imp fun i t h => ⟨Or.inr h.1, h.2⟩, fun r hr => ?_, hsub.cons first,
          hsub'.cons_cons first, List.perm_middle.trans (hperm.cons first)⟩
        rcases List.mem_cons.mp hr with rfl | hr
        · exact ⟨t, Or.inl rfl, hc⟩
        · obtain ⟨t', hmem, hcheck⟩ := hrejected r hr
          exact ⟨t', Or.inr hmem, hcheck⟩
      | undefined p => cases h

lemma parts_of_sort (h : K.sort trees = .ok sorted) : ∃ kept, K.Parts trees sorted kept := by
  obtain ⟨kept, hkept, hrejected, hsub, hsub', hperm⟩ := parts_of_sortFrom h
  simp only [List.mk_mem_zipIdx_iff_getElem?] at hkept hrejected
  rw [← List.range_eq_range'] at hperm hsub hsub'
  exact ⟨kept, hkept, hrejected, List.pairwise_lt_range.sublist hsub, List.pairwise_lt_range.sublist hsub', hperm⟩

lemma exists_step_error (h : K.run w todo = .error f) : ∃ w work, K.step w work = .error f := by
  fun_induction run K w todo with
  | case1 => cases h
  | case2 w work rest e hstep =>
    cases h
    exact ⟨w, work, hstep⟩
  | case3 w work rest w' todo hstep ih => exact ih h

def nameFaults : List ErrorKind := [.undeclaredIdentifier, .invalidSymbolKind, .redefinition]

def OverName (f : Fault) : Prop := ∃ e, f = .scope e ∧ e.kind ∈ nameFaults

lemma error_of_map {α β : Type} {x : Except Fault α} {g : α → β} (h : x.map g = .error f) : x = .error f := by
  cases x with
  | ok a => cases h
  | error f' =>
    cases h
    rfl

lemma declare_error {s : Scopes} {kind : NameKind} {d : Declared} (h : declare s kind d = .error f) : OverName f := by
  rw [declare] at h
  split at h
  · cases h
  · cases h
    exact ⟨_, rfl, by simp [nameFaults]⟩

lemma declareAll_error {s : Scopes} {kind : NameKind} {names : List Declared}
    (h : declareAll s kind names = .error f) : OverName f := by
  induction names generalizing s with
  | nil => cases h
  | cons d names ih =>
    rw [declareAll, List.foldlM_cons] at h
    cases hd : declare s kind d with
    | error f' =>
      rw [hd] at h
      cases h
      exact declare_error hd
    | ok s' =>
      rw [hd] at h
      exact ih h

lemma expect_error {p : ℕ} {s : Scopes} {kind : NameKind} {children : List Tree}
    (h : K.expect p s kind children = .error f) : OverName f ∨ ∃ p, f = .undefined p := by
  rw [expect.eq_def] at h
  split at h
  · cases h
    exact Or.inr ⟨_, rfl⟩
  · dsimp only at h
    split at h
    · cases h
      exact Or.inl ⟨_, rfl, by simp [nameFaults]⟩
    · split at h
      · cases h
      · cases h
        exact Or.inl ⟨_, rfl, by simp [nameFaults]⟩

lemma plan_error {declaration : Option NameKind} {p : ℕ} {role : Role} {category : Category} {t : Tree}
    (h : K.plan declaration p role t category = .error f) : ∃ p, f = .undefined p := by
  rw [plan.eq_def] at h
  split at h
  · rw [planFunction.eq_def] at h
    split at h <;> cases h
    exact ⟨_, rfl⟩
  · cases h
  · cases h
  · cases h
  · rw [planInitialized.eq_def] at h
    split at h <;> cases h
    exact ⟨_, rfl⟩
  · cases h
  · cases h
  · cases h
  · rw [planEnumerator.eq_def] at h
    split at h <;> cases h
    exact ⟨_, rfl⟩
  · cases h

lemma visit_error {t : Tree} (h : K.visit w t = .error f) : OverName f ∨ ∃ p, f = .undefined p := by
  rw [visit.eq_def] at h
  split at h
  · cases h
  · split at h
    · exact Or.inr ⟨_, (Except.error.inj h).symm⟩
    · split at h
      · exact expect_error (error_of_map h)
      · split at h
        · cases h
        · split at h
          · exact Or.inr ⟨_, (Except.error.inj h).symm⟩
          · exact Or.inr (plan_error h)

lemma step_error (h : K.step w work = .error f) :
    OverName f ∨ ∃ p t, f = .undefined p ∧ K.visit w t = .error f := by
  cases work with
  | visit t => exact (visit_error (error_of_map h)).imp_right fun ⟨p, hp⟩ => ⟨p, t, hp, error_of_map h⟩
  | push | pop | setDeclaration => cases h
  | declareNames t kind => exact Or.inl (declareAll_error (error_of_map h))
  | declareParams t => exact Or.inl (declareAll_error (error_of_map h))
  | declareLeaf t => exact Or.inl (declare_error (error_of_map h))

lemma check_error {t : Tree} (h : K.check t = .error f) : ∃ w work, K.step w work = .error f := by
  rw [check] at h
  cases hrun : K.run {} [.visit t] with
  | ok w =>
    rw [hrun] at h
    cases h
  | error f' =>
    rw [hrun] at h
    cases h
    exact exists_step_error hrun

lemma check_error_kind {t : Tree} {e : ScopeError} (h : K.check t = .error (.scope e)) : e.kind ∈ nameFaults := by
  obtain ⟨w, work, hstep⟩ := check_error h
  rcases step_error hstep with ⟨_, he, hkind⟩ | ⟨p, t, hp, _⟩
  · cases he
    exact hkind
  · cases hp

lemma evaluate_of_other {k : Option NameKind} {s : Scopes} {t : Tree}
    (h : ∀ p span annotations children, .node p span annotations children ∈ t.subtrees →
      K.vocabulary.role? p = some .other ∧ K.vocabulary.category? p = some .other) : K.evaluate k s t = .ok s := by
  induction t using Tree.induction with
  | leaf => rw [evaluate]
  | node p span annotations children ih =>
    obtain ⟨hrole, hcategory⟩ := h p span annotations children (Tree.mem_subtrees_self _)
    have hall : ∀ cs, (∀ c ∈ cs, c ∈ children) → K.evaluateAll k s cs = .ok s := by
      intro cs hcs
      induction cs with
      | nil => rw [evaluateAll]
      | cons c cs ihcs =>
        rw [List.forall_mem_cons] at hcs
        rw [evaluateAll, ih c hcs.1 fun p span annotations children hs => ?_]
        · exact ihcs hcs.2
        · refine h p span annotations children ?_
          rw [Tree.subtrees, List.mem_cons, Tree.mem_forestSubtrees]
          exact Or.inr ⟨c, hcs.1, hs⟩
    rw [evaluate, hrole, hcategory]
    exact hall children fun _ => id

end Checker

namespace FrontEnd

variable {E : FrontEnd} {source : List UInt8} {F : Forest} {S : Checker.Sorted}

def Last (rejected : List (ℕ × ScopeError)) (e : ScopeError) : Prop :=
  ∃ before i after, rejected = before ++ (i, e) :: after ∧
    (∀ r ∈ before, (compare r.2.span e.span).isLE = true) ∧ ∀ r ∈ after, compare r.2.span e.span = .lt

lemma farthest_eq_some {rejected : List (ℕ × ScopeError)} {e : ScopeError}
    (h : farthest (rejected.map Prod.snd) = some e) : Last rejected e := by
  rcases rejected with _ | ⟨⟨i, first⟩, rest⟩
  · cases h
  obtain rfl := Option.some.inj h
  clear h
  -- From the right, as the fold goes on: each error takes the place of the best one before it unless it is smaller.
  induction rest using List.reverseRecOn with
  | nil => exact ⟨[], i, [], rfl, by simp, by simp⟩
  | append_singleton rest r ih =>
    obtain ⟨before, j, after, hsplit, hbefore, hafter⟩ := ih
    simp only [List.map_append, List.map_cons, List.map_nil, List.foldl_append, List.foldl_cons, List.foldl_nil]
    generalize (rest.map Prod.snd).foldl (fun best e => if (compare e.span best.span).isGE = true then e else best)
      first = best at hsplit hbefore hafter
    rw [← List.cons_append, hsplit]
    split
    · rename_i hge
      have hle : (compare best.span r.2.span).isLE = true := Std.OrientedCmp.isGE_iff_isLE.mp hge
      refine ⟨before ++ (j, best) :: after, r.1, [], rfl, ?_, by simp⟩
      intro q hq
      rcases List.mem_append.mp hq with hq | hq
      · exact Std.TransOrd.isLE_trans (hbefore q hq) hle
      · rcases List.mem_cons.mp hq with rfl | hq
        · exact hle
        · exact Std.TransOrd.isLE_trans (by rw [hafter q hq]; rfl) hle
    · rename_i hlt
      refine ⟨before, j, after ++ [r], by simp, hbefore, ?_⟩
      intro q hq
      rcases List.mem_append.mp hq with hq | hq
      · exact hafter q hq
      · rw [List.mem_singleton.mp hq]
        cases hc : compare r.2.span best.span <;> simp_all

lemma exists_farthest {rejected : List (ℕ × ScopeError)} (h : rejected ≠ []) :
    ∃ e, farthest (rejected.map Prod.snd) = some e := by
  cases rejected with
  | nil => exact absurd rfl h
  | cons r rest => exact ⟨_, rfl⟩

/-- What `parse` makes of the candidates of a text as they are sorted. -/
structure Verdict (E : FrontEnd) (source : List UInt8) (F : Forest) (S : Checker.Sorted) : Prop where
  ok_iff : ∀ u, E.parse source = .ok u ↔ u.tokens = F.tokens ∧ S.survivors = [u.tree]
  ambiguous_iff : (∃ e, E.parse source = .error e ∧ e.kind = .ambiguous) ↔ 2 ≤ S.survivors.length
  refused_iff : (∃ e, Last S.rejected e ∧ E.parse source = .error (.ofScope e)) ↔ S.survivors = []

lemma parse_of_analyze {survey : Survey} (h : E.analyze source = .ok survey) : E.parse source =
    match survey.survivors with
    | [tree] => .ok ⟨survey.tokens, tree⟩
    | [] => match farthest (survey.rejected.map Prod.snd) with
      | some e => .error (.ofScope e)
      | none => .error { stage := .parser, kind := .unexpectedToken, span := {} }
    | first :: rest => .error ⟨.parser, .ambiguous, first.span, s!"{rest.length + 1} valid parses"⟩ := by
  rw [parse, h]
  rfl

lemma analyze_of_forest (hF : E.forest source = .ok F) (hS : (E.checker F.tokens).sort F.trees = .ok S) :
    E.analyze source = .ok ⟨F.tokens, S.survivors, S.rejected⟩ := by
  rw [analyze, hF]
  dsimp only [bind, Except.bind]
  rw [hS]
  rfl

lemma rejected_ne_nil {K : Checker} {trees : List Tree} {kept : List ℕ} (h : K.Parts trees S kept)
    (hsome : trees ≠ []) (hnone : S.survivors = []) : S.rejected ≠ [] := by
  intro hnil
  have hsurvivors := h.survivors
  rw [hnone] at hsurvivors
  cases hsurvivors
  have hlength := h.perm.length_eq
  rw [hnil] at hlength
  exact hsome (List.eq_nil_of_length_eq_zero (by simpa using hlength.symm))

lemma verdict {kept : List ℕ} (hF : E.forest source = .ok F) (hS : (E.checker F.tokens).sort F.trees = .ok S)
    (hsome : F.trees ≠ []) (hparts : (E.checker F.tokens).Parts F.trees S kept) : E.Verdict source F S := by
  have hparse := parse_of_analyze (analyze_of_forest hF hS)
  have hkinds : ∀ e, Last S.rejected e → e.kind ≠ .ambiguous := by
    rintro e ⟨before, i, after, hsplit, _⟩ hambiguous
    obtain ⟨t, _, hcheck⟩ := hparts.rejected (i, e) (by simp [hsplit])
    have := Checker.check_error_kind hcheck
    simp [Checker.nameFaults, hambiguous] at this
  rcases hsurvivors : S.survivors with _ | ⟨t, _ | ⟨t', rest⟩⟩
  · obtain ⟨e, he⟩ := exists_farthest (rejected_ne_nil hparts hsome hsurvivors)
    have hlast := farthest_eq_some he
    simp only [hsurvivors, he] at hparse
    constructor
    · simp [hparse, hsurvivors]
    · simpa [hparse, hsurvivors, FrontError.ofScope] using hkinds e hlast
    · exact iff_of_true ⟨e, hlast, hparse⟩ hsurvivors
  · simp only [hsurvivors] at hparse
    constructor
    · rintro ⟨tokens, tree⟩
      simp [hparse, hsurvivors, eq_comm]
    · simp [hparse, hsurvivors]
    · simp [hparse, hsurvivors]
  · simp only [hsurvivors] at hparse
    constructor
    · simp [hparse, hsurvivors]
    · exact iff_of_true ⟨_, hparse, rfl⟩ (by simp [hsurvivors])
    · refine iff_of_false ?_ (by simp [hsurvivors])
      rintro ⟨e, hlast, he⟩
      rw [hparse] at he
      exact hkinds e hlast (congrArg FrontError.kind (Except.error.inj he)).symm

def Sorts (E : FrontEnd) : Prop :=
  ∀ source F, E.forest source = .ok F → ∃ S, (E.checker F.tokens).sort F.trees = .ok S

/-- The outcomes of the front end. With the tables of C the scope rules apply to all that is found, and wherever
they do: if no forest is found, its error is that of the front end; otherwise the forest is not empty, the check
parts its trees, and the parting decides the verdict. -/
theorem parse_verdicts : (∀ V, standard = some V → ∀ config, Sorts ⟨V, config⟩) ∧
    ∀ E : FrontEnd, E.Sorts → ∀ source,
      (∃ e, E.forest source = .error e ∧ E.parse source = .error e) ∨
      ∃ F S kept, E.forest source = .ok F ∧ F.trees ≠ [] ∧ (E.checker F.tokens).sort F.trees = .ok S ∧
        (E.checker F.tokens).Parts F.trees S kept ∧ E.Verdict source F S ∧ (S.survivors = [] → S.rejected ≠ []) := by
  refine ⟨fun V hV config source F hF => ?_, fun E hE source => ?_⟩
  · obtain ⟨g, hg⟩ := standard_eq hV
    obtain ⟨list, hlist, htokens, hp⟩ := forest_ok hF
    exact sort_ok (E := ⟨V, config⟩) hg (htokens ▸ tokenize_size hlist) hp
  · cases hF : E.forest source with
    | error e =>
      refine Or.inl ⟨e, rfl, ?_⟩
      rw [parse, analyze, hF]
      rfl
    | ok F =>
      obtain ⟨_, _, _, hp⟩ := forest_ok hF
      obtain ⟨S, hS⟩ := hE source F hF
      obtain ⟨kept, hparts⟩ := Checker.parts_of_sort hS
      have hsome := parseTokens_ne_nil hp
      exact Or.inr ⟨F, S, kept, rfl, hsome, hS, hparts, verdict hF hS hsome hparts, rejected_ne_nil hparts hsome⟩

lemma pair_sorts : pairFrontEnd.Sorts := by
  intro source F hF
  have hother : ∀ r ∈ pairFrontEnd.vocabulary.roles, r = .other := by decide
  have hother' : ∀ c ∈ pairFrontEnd.vocabulary.categories, c = .other := by decide
  have hpasses : ∀ t ∈ F.trees, (pairFrontEnd.checker F.tokens).check t = .ok () := fun t ht => by
    rw [Checker.check_ok_iff]
    refine ⟨_, Checker.evaluate_of_other fun p span annotations children hs => ?_⟩
    have hcovers := forest_covers pair_tight hF ht hs
    obtain ⟨q, -, hq⟩ := Option.bind_eq_some_iff.mp hcovers.category?_eq
    refine ⟨hcovers.role?_eq.trans (congrArg some (hother _ (Array.mem_of_getElem? hcovers.role?_eq))),
      hcovers.category?_eq.trans (congrArg some (hother' _ (Array.mem_of_getElem? hq)))⟩
  cases hS : (pairFrontEnd.checker F.tokens).sort F.trees with
  | ok S => exact ⟨S, rfl⟩
  | error p =>
    obtain ⟨t, ht, hcheck⟩ := Checker.sortFrom_error hS
    rw [hpasses t ht] at hcheck
    cases hcheck

theorem parse_verdicts_pair : (∃ V, standard = some V ∧ Sorts ⟨V, {}⟩) ∧
    ∃ F S u, pairFrontEnd.forest [97, 32, 98] = .ok F ∧ (pairFrontEnd.checker F.tokens).sort F.trees = .ok S ∧
      pairFrontEnd.parse [97, 32, 98] = .ok u ∧ S.survivors = [u.tree] := by
  obtain ⟨V, _, hV, _⟩ := exists_vocabulary
  refine ⟨⟨V, hV, parse_verdicts.1 V hV {}⟩, ?_⟩
  have hok : (pairFrontEnd.parse [97, 32, 98]).isOk = true := by decide +kernel
  rcases parse_verdicts.2 _ pair_sorts [97, 32, 98] with ⟨e, _, he⟩ | ⟨F, S, kept, hF, _, hS, _, hverdict, _⟩
  · rw [he] at hok
    cases hok
  · cases hparse : pairFrontEnd.parse [97, 32, 98] with
    | error e =>
      rw [hparse] at hok
      cases hok
    | ok u => exact ⟨F, S, u, hF, hS, rfl, ((hverdict.ok_iff u).mp hparse).2⟩

end FrontEnd

end C

end Ramify
