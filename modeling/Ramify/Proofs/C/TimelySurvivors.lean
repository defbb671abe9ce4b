import Ramify.Proofs.C.FiniteSearches
import Ramify.Proofs.C.NameCodes
import Ramify.Proofs.C.TimelyNames

namespace Ramify.C

lemma exists_of_isOk {α ε : Type} {x : Except ε α} (h : x.isOk = true) : ∃ a, x = .ok a := by
  cases x with
  | ok a => exact ⟨a, rfl⟩
  | error e => cases h

namespace FrontEnd

open Checker

variable {E : FrontEnd} {tokens : Array Token} {g : Grammar} {t : Tree} {kind : NameKind}

section Standard

variable (hV : E.vocabulary.Standard g) (hne : 0 < tokens.size)

include hV hne

lemma Derives.everywhere_of_timely (h : E.Derives tokens t) (hcheck : (E.checker tokens).check t = .ok ())
    {name : String} (hname : name ∈ t.names ((E.checker tokens).usesAt kind) → (E.checker tokens).Timely kind name t) :
    (E.checker tokens).everywhere ((E.checker tokens).knowsName kind name) {} t = true := by
  by_cases huse : name ∈ t.names ((E.checker tokens).usesAt kind)
  · obtain ⟨s, hs⟩ := check_ok_iff.mp hcheck
    have hserves : Scopes.Serves {} {} kind name := kind.serves_refl _
    exact ((h.spells hV hne).known hV (Or.inl rfl) {} {} s (hname huse) hserves rfl hs).1
  · exact (h.spells hV hne).everywhere_of_notMem huse {}

lemma Derives.everywhere_knows (h : E.Derives tokens t) (hcheck : (E.checker tokens).check t = .ok ())
    (hnames : ∀ name ∈ t.names ((E.checker tokens).usesAt kind), (E.checker tokens).Timely kind name t) :
    (E.checker tokens).everywhere ((E.checker tokens).knows kind) {} t = true :=
  everywhere_knows_iff.mpr fun name => h.everywhere_of_timely hV hne hcheck (hnames name)

lemma Derives.everywhere_knows_ordinary (h : E.Derives tokens t) (hcheck : (E.checker tokens).check t = .ok ())
    (hnames : ∀ name ∈ t.names (E.checker tokens).typedefsAt, (E.checker tokens).Timely .ordinary name t) :
    (E.checker tokens).everywhere ((E.checker tokens).knows .ordinary) {} t = true := by
  refine everywhere_knows_iff.mpr fun name => ?_
  by_cases hname : name ∈ t.names (E.checker tokens).typedefsAt
  · exact h.everywhere_of_timely hV hne hcheck fun _ => hnames name hname
  · exact ((h.spells hV hne).known_of_ordinary hV hname {} nofun).1

end Standard

lemma gated_asks_off : ((E.gated false).reader tokens).asks = fun ctx p annotations children =>
    (E.checker tokens).agrees ctx p annotations children && (E.checker tokens).knows .typedef ctx p annotations children := by
  funext ctx p annotations children
  exact (congrArg (· && _) (Bool.and_true _)).trans (Bool.and_comm _ _)

end FrontEnd

/-- Without the gate for values those trees survive that the table derives, whose lists of specifiers are
consistent, which pass the scope check, and in which the provisional scopes know the names of types where they
are used; and if no such name is used too early for them, the last takes nothing away. -/
theorem survivors_of_timely {V : Vocabulary} (hV : standard = some V) (config : Config) {source : List UInt8}
    {tokens : List Token} (ht : tokenize source = .ok tokens) {survivors : List Tree}
    (h : ((FrontEnd.mk V config).gated false).survivors? source = some survivors) :
    let E := (FrontEnd.mk V config).gated false
    let K := E.checker tokens.toArray
    (∀ t, t ∈ survivors ↔ E.Derives tokens.toArray t ∧ K.everywhere K.agrees {} t = true ∧
      K.everywhere (K.knows .typedef) {} t = true ∧ K.check t = .ok ()) ∧
    ∀ t, (∀ name ∈ t.names (K.usesAt .typedef), K.Timely .typedef name t) →
      (t ∈ survivors ↔ E.Derives tokens.toArray t ∧ K.everywhere K.agrees {} t = true ∧ K.check t = .ok ()) := by
  intro E K
  obtain ⟨g, hg⟩ := standard_eq hV
  have hiff : ∀ t, t ∈ survivors ↔ E.Derives tokens.toArray t ∧ K.everywhere K.agrees {} t = true ∧
      K.everywhere (K.knows .typedef) {} t = true ∧ K.check t = .ok () := by
    intro t
    rw [FrontEnd.mem_survivors?_iff (E := E) ht hg h, FrontEnd.gated_asks_off, Checker.everywhere_and, Bool.and_eq_true,
      and_assoc]
    rfl
  refine ⟨hiff, fun t hnames => ?_⟩
  rw [hiff]
  constructor
  · rintro ⟨hderives, hagrees, _, hcheck⟩
    exact ⟨hderives, hagrees, hcheck⟩
  · rintro ⟨hderives, hagrees, hcheck⟩
    exact ⟨hderives, hagrees, hderives.everywhere_knows (E := E) hg (FrontEnd.tokenize_size ht) hcheck hnames, hcheck⟩

theorem survivors_of_timely_alias : ∃ (V : Vocabulary) (config : Config) (tokens : List Token) (survivors : List Tree),
    let source := "typedef int T; T x;".toUTF8.data.toList
    let E := (FrontEnd.mk V config).gated false
    let K := E.checker tokens.toArray
    standard = some V ∧ tokenize source = .ok tokens ∧ E.survivors? source = some survivors ∧
    (∀ t, t ∈ survivors ↔ E.Derives tokens.toArray t ∧ K.everywhere K.agrees {} t = true ∧
      K.everywhere (K.knows .typedef) {} t = true ∧ K.check t = .ok ()) ∧
    ∀ t, (∀ name ∈ t.names (K.usesAt .typedef), K.Timely .typedef name t) →
      (t ∈ survivors ↔ E.Derives tokens.toArray t ∧ K.everywhere K.agrees {} t = true ∧ K.check t = .ok ()) := by
  obtain ⟨V, _, hV, _⟩ := exists_vocabulary
  obtain ⟨g, hg⟩ := standard_eq hV
  have hok : (tokenize "typedef int T; T x;".toUTF8.data.toList).isOk = true := by decide +kernel
  obtain ⟨tokens, ht⟩ := exists_of_isOk hok
  obtain ⟨L, hL⟩ := FrontEnd.exists_survivors (E := (FrontEnd.mk V {}).gated false) hg ht
  obtain ⟨survivors, hsurvivors⟩ := hL L le_rfl le_rfl
  exact ⟨V, { limits := L }, tokens, survivors, hV, ht, hsurvivors, survivors_of_timely hV { limits := L } ht hsurvivors⟩

/-- The gate for values takes away the trees in which the provisional scopes take a value for a type. Such a
value is the name of a type elsewhere and is used too early for them; if no name of a type is, both settings give
the same survivors. -/
theorem gate_of_timely {V : Vocabulary} (hV : standard = some V) (config : Config) {source : List UInt8}
    {tokens : List Token} (ht : tokenize source = .ok tokens) {gated free : List Tree}
    (hgated : ((FrontEnd.mk V config).gated true).survivors? source = some gated)
    (hfree : ((FrontEnd.mk V config).gated false).survivors? source = some free) :
    let K := (FrontEnd.mk V config).checker tokens.toArray
    gated = free.filter (K.everywhere (K.knows .ordinary) {}) ∧
    (∀ t ∈ free, (∀ name ∈ t.names K.typedefsAt, K.Timely .ordinary name t) → t ∈ gated) ∧
    ((∀ t ∈ free, ∀ name ∈ t.names K.typedefsAt, K.Timely .ordinary name t) → gated = free) := by
  intro K
  obtain ⟨g, hg⟩ := standard_eq hV
  have hne := FrontEnd.tokenize_size ht
  have hmem : ∀ t ∈ free, (∀ name ∈ t.names K.typedefsAt, K.Timely .ordinary name t) →
      K.everywhere (K.knows .ordinary) {} t = true := by
    intro t hfound hnames
    obtain ⟨hderives, -, hcheck⟩ :=
      (FrontEnd.mem_survivors?_iff (E := (FrontEnd.mk V config).gated false) ht hg hfree).mp hfound
    exact hderives.everywhere_knows_ordinary (E := (FrontEnd.mk V config).gated false) hg hne hcheck hnames
  have hfilter : gated = free.filter (K.everywhere (K.knows .ordinary) {}) := by
    obtain ⟨trees, hreads, rfl⟩ := FrontEnd.survivors?_eq (E := (FrontEnd.mk V config).gated true) ht hg hgated
    obtain ⟨others, hreads', rfl⟩ := FrontEnd.survivors?_eq (E := (FrontEnd.mk V config).gated false) ht hg hfree
    rw [FrontEnd.gated_reads (E := ⟨V, config⟩) hg hne hreads hreads', List.filter_filter, List.filter_filter]
    exact List.filter_congr fun t _ => Bool.and_comm _ _
  refine ⟨hfilter, fun t hfound hnames => ?_, fun hnames => ?_⟩
  · rw [hfilter]
    exact List.mem_filter.mpr ⟨hfound, hmem t hfound hnames⟩
  · rw [hfilter]
    exact List.filter_eq_self.mpr fun t hfound => hmem t hfound (hnames t hfound)

theorem gate_of_timely_parameter : ∃ (V : Vocabulary) (config : Config) (tokens : List Token) (gated free : List Tree),
    let source := "typedef int T; int f(int T);".toUTF8.data.toList
    let K := (FrontEnd.mk V config).checker tokens.toArray
    standard = some V ∧ tokenize source = .ok tokens ∧
    ((FrontEnd.mk V config).gated true).survivors? source = some gated ∧
    ((FrontEnd.mk V config).gated false).survivors? source = some free ∧
    gated = free.filter (K.everywhere (K.knows .ordinary) {}) ∧
    (∀ t ∈ free, (∀ name ∈ t.names K.typedefsAt, K.Timely .ordinary name t) → t ∈ gated) ∧
    ((∀ t ∈ free, ∀ name ∈ t.names K.typedefsAt, K.Timely .ordinary name t) → gated = free) := by
  obtain ⟨V, _, hV, _⟩ := exists_vocabulary
  obtain ⟨g, hg⟩ := standard_eq hV
  have hok : (tokenize "typedef int T; int f(int T);".toUTF8.data.toList).isOk = true := by decide +kernel
  obtain ⟨tokens, ht⟩ := exists_of_isOk hok
  obtain ⟨L, hL⟩ := FrontEnd.exists_survivors (E := (FrontEnd.mk V {}).gated true) hg ht
  obtain ⟨L', hL'⟩ := FrontEnd.exists_survivors (E := (FrontEnd.mk V {}).gated false) hg ht
  -- Limits that serve with the gate and without it.
  let M : Search.Limits := ⟨max L.maxSteps L'.maxSteps, max L.maxCandidates L'.maxCandidates⟩
  obtain ⟨gated, hgated⟩ := hL M (le_max_left _ _) (le_max_left _ _)
  obtain ⟨free, hfree⟩ := hL' M (le_max_right _ _) (le_max_right _ _)
  exact ⟨V, { limits := M }, tokens, gated, free, hV, ht, hgated, hfree, gate_of_timely hV { limits := M } ht hgated hfree⟩

end Ramify.C
