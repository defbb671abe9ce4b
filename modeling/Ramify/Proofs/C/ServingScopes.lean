import Ramify.Proofs.C.Declarators
import Ramify.Proofs.C.NameUses

/-! The provisional scopes beside the exact ones. While a tree is read they need not give a name
the same kind: the provisional ones serve for the uses of a name as one of a kind if they refuse
none that the exact ones allow. A tree keeps this if nothing in it is refused and, unless the
name waits, the scopes still serve behind it. -/

namespace Ramify.C

/-- Whether the provisional scopes serve for the uses of a name as one of a kind, when they and the exact
scopes give the name these kinds. -/
def NameKind.Serves : NameKind → Option NameKind → Option NameKind → Prop
  | .typedef, provisional, exact => exact = some .typedef → provisional = some .typedef
  | .ordinary, provisional, exact => provisional = some .typedef → exact = some .typedef

namespace NameKind

lemma serves_refl (kind : NameKind) (k : Option NameKind) : kind.Serves k k := by
  cases kind <;> exact id

lemma ordinary_serves (k : Option NameKind) : NameKind.ordinary.Serves (some .ordinary) k := nofun

end NameKind

namespace Scopes

def Serves (s s' : Scopes) (kind : NameKind) (name : String) : Prop := kind.Serves (s.kind? name) (s'.kind? name)

variable {s s' : Scopes} {kind : NameKind} {name : String}

lemma refusal_ordinary (h : s.kind? name ≠ some .typedef) : s.refusal? .ordinary name = none := by
  rw [refusal?.eq_def, ← kind?]
  cases hk : s.kind? name with
  | none => rfl
  | some k =>
    cases k with
    | typedef => exact absurd hk h
    | ordinary => rfl

lemma Serves.refusal (h : s.Serves s' kind name) (hk : s'.kind? name = some kind) : s.refusal? kind name = none := by
  cases kind with
  | typedef =>
    have hs : s.kind? name = some .typedef := h hk
    rw [refusal?.eq_def, ← kind?, hs]
  | ordinary =>
    refine refusal_ordinary fun hs => ?_
    have hs' : s'.kind? name = some .typedef := h hs
    cases hk.symm.trans hs'

end Scopes

namespace Checker

variable (K : Checker) (kind : NameKind) (name : String)

/-- Nothing is refused in a tree, and behind it, unless the name waits, the provisional scopes serve
beside the exact ones. -/
structure Keeps (ctx : Context) (t : Tree) (s : Scopes) : Prop where
  known : K.everywhere (K.knowsName kind name) ctx t = true
  serves : name ∉ K.waiting kind t → (K.after ctx t).scopes.Serves s kind name

structure KeepsAll (ctx : Context) (ts : List Tree) (s : Scopes) : Prop where
  known : K.everywhereAll (K.knowsName kind name) ctx ts = true
  serves : name ∉ K.waitingAll kind ts → (K.afterAll ctx ts).scopes.Serves s kind name

variable {K kind name} {ctx : Context} {t : Tree} {ts : List Tree} {s s' : Scopes}

lemma KeepsAll.nil (h : ctx.scopes.Serves s kind name) : K.KeepsAll kind name ctx [] s := ⟨rfl, fun _ => h⟩

lemma KeepsAll.cons (ht : K.Keeps kind name ctx t s)
    (hwaits : name ∈ K.waiting kind t → K.everywhereAll (K.knowsName kind name) (K.after ctx t) ts = true)
    (hrest : (K.after ctx t).scopes.Serves s kind name → K.KeepsAll kind name (K.after ctx t) ts s') :
    K.KeepsAll kind name ctx (t :: ts) s' := by
  by_cases hname : name ∈ K.waiting kind t
  · refine ⟨?_, fun hnot => absurd (List.mem_append_left _ hname) hnot⟩
    rw [everywhereAll, ht.known, hwaits hname, Bool.and_self]
  · obtain ⟨hknown, hserves⟩ := hrest (ht.serves hname)
    refine ⟨?_, fun hnot => hserves fun hmem => hnot (List.mem_append_right _ hmem)⟩
    rw [everywhereAll, ht.known, hknown, Bool.and_self]

lemma block_ok {inside : Scopes → Except Fault Scopes} (h : block s inside = .ok s') :
    s' = s ∧ ∃ s₁, inside s.push = .ok s₁ := by
  rw [block] at h
  cases hi : inside s.push with
  | error e =>
    rw [hi] at h
    cases h
  | ok s₁ =>
    rw [hi] at h
    exact ⟨(Except.ok.inj h).symm, s₁, rfl⟩

end Checker

namespace Reader

open Rules Checker

variable {R : Reader} {g : Grammar} {kind : NameKind} {name : String} {x : NamedSymbol} {t : Tree}
  {xs : List NamedSymbol} {ts children : List Tree} {ctx : Context} {s s' s₁ : Scopes} {i : Nat} {r : Rule}
  {span : Span} {annotations : Annotations}

lemma scopes_advance {role : Role} {category : Category}
    (hc : category ∉ [Category.declaratorInit, .enumerator, .declaration, .blockOpen, .compoundStatement])
    (hrole : role ≠ .forLoop) : (advance ctx role category annotations).scopes = ctx.scopes := by
  rw [advance.eq_def]
  cases category
  case iterationStatement => exact congrArg _ (if_neg hrole)
  all_goals first | rfl | exact absurd (by decide) hc

lemma role_plain (hr : r ∈ rules) (hc : categoryOf r.left ∉ [Category.other, .directDeclarator]) :
    (roleOf r).use? = none ∧ roleOf r ≠ .declaratorName := by
  rw [List.mem_cons, not_or, List.mem_singleton] at hc
  constructor
  · by_contra huse
    exact hc.1 ((declaring r hr).1 huse).2
  · exact (shaped hr).role_ne_name hc.2

lemma ne_forLoop (hr : r ∈ rules) (hc : categoryOf r.left ≠ .iterationStatement) : roleOf r ≠ .forLoop :=
  fun hloop => hc (loop_right hr hloop).1

lemma exists_leaf {name : String} (h : List.Forall₂ R.Spells [.term name] ts) : ∃ j place, ts = [.leaf j place] ∧
    ∀ (ctx : Context) (key : String), (R.checker.afterAll ctx ts).scopes.kind? key = ctx.scopes.kind? key := by
  obtain ⟨leaf, _, hleaf, hrest, rfl⟩ := List.forall₂_cons_left_iff.mp h
  obtain rfl := List.forall₂_nil_left_iff.mp hrest
  obtain ⟨j, place, token, rfl, htok, -⟩ := hleaf.term_inv
  refine ⟨j, place, rfl, fun ctx key => ?_⟩
  rw [Checker.afterAll, Checker.afterAll, after_leaf htok, kind?_contextAfter]

lemma knowsName_of_ordinary (hne : children ≠ []) (hctx : ctx.scopes.kind? name ≠ some .typedef) (p : Nat) :
    R.checker.knowsName .ordinary name ctx p annotations children = true := by
  obtain ⟨leaf, rest, rfl⟩ := List.exists_cons_of_ne_nil hne
  rw [Checker.knowsName, List.head?_cons, Option.any_some, Scopes.refusal_ordinary hctx]
  simp

lemma knownAll_of_ordinary (h : List.Forall₂ (fun _ t => ∀ ctx : Context, ctx.scopes.kind? name ≠ some .typedef →
    R.checker.everywhere (R.checker.knowsName .ordinary name) ctx t = true ∧
      (R.checker.after ctx t).scopes.kind? name ≠ some .typedef) xs ts) (hctx : ctx.scopes.kind? name ≠ some .typedef) :
    R.checker.everywhereAll (R.checker.knowsName .ordinary name) ctx ts = true ∧
      (R.checker.afterAll ctx ts).scopes.kind? name ≠ some .typedef := by
  induction h generalizing ctx with
  | nil => exact ⟨rfl, hctx⟩
  | cons ht _ ih =>
    obtain ⟨hknown, hafter⟩ := ht ctx hctx
    obtain ⟨hall, hafter⟩ := ih hafter
    exact ⟨by rw [Checker.everywhereAll, hknown, hall, Bool.and_self], hafter⟩

section Standard

variable (hV : R.vocabulary.Standard g)

include hV

lemma Spells.category_eq (h : R.Spells x t) : t.category? R.checker.vocabulary = sortOf x := by
  cases h with
  | leaf => rfl
  | node hr => exact congrArg some (hV.category_eq hr)

lemma Spells.notMem_waiting (h : R.Spells x t) (hx : (sortOf x).any Category.gathers = false) :
    name ∉ R.checker.waiting kind t := by
  cases h with
  | leaf => exact List.not_mem_nil
  | @node i r _ _ _ hr =>
    have hg : (categoryOf r.left).gathers = false := hx
    rw [Checker.waiting, checker_category hV hr]
    cases hc : categoryOf r.left <;> first | exact List.not_mem_nil | (rw [hc] at hg; cases hg)

lemma notMem_waitingAll (hr : rules[i]? = some r) (hchildren : List.Forall₂ R.Spells r.right children)
    (hc : categoryOf r.left ∉ [Category.declaration, .directDeclarator, .directAbstractDeclarator, .initDeclaratorList,
      .initDeclarator, .parameterTypeList, .parameterList]) : name ∉ R.checker.waitingAll kind children := by
  intro hname
  obtain ⟨c, hmem, hwaits⟩ := mem_waitingAll.mp hname
  obtain ⟨x, hx, hspells⟩ := exists_of_forall₂ hchildren c hmem
  exact hspells.notMem_waiting hV ((gathering r (List.mem_of_getElem? hr)).1 hc x hx) hwaits

section Node

variable (hr : rules[i]? = some r)

include hr

lemma everywhere_node (huse : (roleOf r).use? = none) (ctx : Context) :
    R.checker.everywhere (R.checker.knowsName kind name) ctx (.node (i + 1) span annotations children) =
      R.checker.everywhereAll (R.checker.knowsName kind name) ctx children := by
  rw [Checker.everywhere, Checker.knowsName, checker_role hV hr, huse]
  exact Bool.and_true _

lemma everywhere_plain (hc : categoryOf r.left ∉ [Category.other, .directDeclarator]) (ctx : Context) :
    R.checker.everywhere (R.checker.knowsName kind name) ctx (.node (i + 1) span annotations children) =
      R.checker.everywhereAll (R.checker.knowsName kind name) ctx children :=
  everywhere_node hV hr (role_plain (List.mem_of_getElem? hr) hc).1 ctx

lemma keeps_use (hchildren : List.Forall₂ R.Spells r.right children) {use : NameKind} (huse : (roleOf r).use? = some use)
    (hserves : ctx.scopes.Serves s kind name) (he : R.checker.expect (i + 1) s use children = .ok ()) :
    R.checker.Keeps kind name ctx (.node (i + 1) span annotations children) s := by
  obtain ⟨hright, hcategory⟩ := (declaring r (List.mem_of_getElem? hr)).1 (by rw [huse]; exact nofun)
  rw [hright] at hchildren
  obtain ⟨j, place, rfl, hscopes⟩ := exists_leaf hchildren
  constructor
  · rw [Checker.everywhere, Checker.everywhereAll, Checker.everywhereAll, Checker.everywhere, Checker.knowsName,
      checker_role hV hr, huse, Bool.and_self, Bool.true_and, Bool.or_eq_true, bne_iff_ne, List.head?_cons,
      Option.any_some, Bool.or_eq_true, bne_iff_ne]
    by_cases hkind : use = kind
    · by_cases hname : (R.checker.leafName (.leaf j place)).name = name
      · have hexact : s.kind? name = some kind := by
          rw [← hname, ← hkind]
          exact expect_ok he
        have hafter : (R.checker.afterAll ctx [.leaf j place]).scopes.Serves s kind name := by
          rw [Scopes.Serves, hscopes]
          exact hserves
        exact Or.inr (Or.inr (Option.isNone_iff_eq_none.mpr (hafter.refusal hexact)))
      · exact Or.inr (Or.inl hname)
    · exact Or.inl fun h => hkind (Option.some.inj h)
  · intro _
    rw [Scopes.Serves, after_node hV hr, hcategory, scopes_advance (by decide) ?_, hscopes]
    · exact hserves
    · intro hloop
      rw [hloop] at huse
      cases huse

lemma keeps_passive (hknown : R.checker.everywhereAll (R.checker.knowsName kind name) ctx children = true)
    (hserves : name ∉ R.checker.waiting kind (.node (i + 1) span annotations children) →
      (R.checker.afterAll ctx children).scopes.Serves s kind name)
    (huse : (roleOf r).use? = none) (hrole : roleOf r ≠ .forLoop)
    (hc : categoryOf r.left ∉ [Category.declaratorInit, .enumerator, .declaration, .blockOpen, .compoundStatement]) :
    R.checker.Keeps kind name ctx (.node (i + 1) span annotations children) s where
  known := by
    rw [everywhere_node hV hr huse, hknown]
  serves hname := by
    rw [after_node hV hr, scopes_advance hc hrole]
    exact hserves hname

lemma keeps_closed (h : R.checker.KeepsAll kind name ctx children s₁) (hserves : ctx.scopes.Serves s kind name)
    (huse : (roleOf r).use? = none) (hclosed : categoryOf r.left = .compoundStatement ∨ roleOf r = .forLoop)
    (hchildren : List.Forall₂ R.Spells r.right children) :
    R.checker.Keeps kind name ctx (.node (i + 1) span annotations children) s where
  known := by
    rw [everywhere_node hV hr huse, h.known]
  serves _ := by
    rw [scopes_after_closed hV hr hclosed hchildren]
    exact hserves

lemma keeps_declaratorName (hchildren : List.Forall₂ R.Spells r.right children)
    (hserves : ctx.scopes.Serves s kind name) (hrole : roleOf r = .declaratorName) :
    R.checker.Keeps kind name ctx (.node (i + 1) span annotations children) s := by
  obtain ⟨hc, hright⟩ := (roles_shaped r (List.mem_of_getElem? hr)).1.1 hrole
  rw [hright] at hchildren
  obtain ⟨j, place, rfl, hscopes⟩ := exists_leaf hchildren
  refine keeps_passive hV hr rfl (fun _ => ?_) (by rw [hrole]; rfl) (by rw [hrole]; decide) (by rw [hc]; decide)
  rw [Scopes.Serves, hscopes]
  exact hserves

end Node

lemma Spells.known_of_ordinary (h : R.Spells x t) (hname : name ∉ t.names R.checker.typedefsAt) (ctx : Context)
    (hctx : ctx.scopes.kind? name ≠ some .typedef) :
    R.checker.everywhere (R.checker.knowsName .ordinary name) ctx t = true ∧
      (R.checker.after ctx t).scopes.kind? name ≠ some .typedef := by
  revert hname ctx
  refine h.induction (fun i span token htok _ ctx hctx => ?_)
    fun i r span annotations children hr hchildren ha hname ctx hctx => ?_
  · refine ⟨rfl, ?_⟩
    rw [after_leaf htok, kind?_contextAfter]
    exact hctx
  · rw [Tree.mem_names_node, not_or] at hname
    obtain ⟨hhere, hbelow⟩ := hname
    have hspells : List.Forall₂ R.Spells r.right children := hchildren.imp fun {_ _} h => h.1
    have hmem := ((List.forall₂_and_left _ _).mpr ⟨fun _ => id, hchildren.flip⟩).flip
    obtain ⟨hknown, hafter⟩ := knownAll_of_ordinary
      (hmem.imp fun {_ c} hc => hc.2.2 fun hname => hbelow ⟨c, hc.1, hname⟩) hctx
    refine ⟨?_, ?_⟩
    · rw [Checker.everywhere, hknown, knowsName_of_ordinary (children_ne_nil hr hchildren) hafter, Bool.and_self]
    · by_cases hclosed : categoryOf r.left = .compoundStatement ∨ roleOf r = .forLoop
      · rw [scopes_after_closed hV hr hclosed hspells]
        exact hctx
      · obtain ⟨hblock, hloop⟩ := not_or.mp hclosed
        rw [after_node hV hr, advance.eq_def]
        cases hc : categoryOf r.left
        case compoundStatement => exact absurd hc hblock
        case iterationStatement =>
          dsimp only
          rw [if_neg hloop]
          exact hafter
        case declaration =>
          rw [Checker.typedefsAt, checker_category hV hr, hc] at hhere
          dsimp only
          rw [Scopes.kind?_bindAll]
          split
          · rename_i hdeclares
            split
            · rename_i htypedef
              rw [if_pos ⟨rfl, htypedef⟩] at hhere
              exact absurd hdeclares hhere
            · exact nofun
          · exact hafter
        case declaratorInit | enumerator | blockOpen =>
          dsimp only
          rw [Scopes.kind?_bindAll]
          split
          · exact nofun
          · exact hafter
        all_goals exact hafter

end Standard

end Reader

end Ramify.C
