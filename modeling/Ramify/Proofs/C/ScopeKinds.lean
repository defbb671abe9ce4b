import Mathlib.Data.List.Basic
import Ramify.C.Check
import Ramify.C.Reading

namespace Ramify.C

namespace Scopes

def kind? (s : Scopes) (name : String) : Option NameKind := (s.lookup name).map Binding.kind

def local? (s : Scopes) (name : String) : Option NameKind := (s.lookupLocal name).map Binding.kind

variable {s s' : Scopes} {name : String} {kind : NameKind}

lemma kind?_bind (s : Scopes) (key : String) (kind : NameKind) (span : Span) (name : String) :
    (s.bind key kind span).kind? name = if name = key then some kind else s.kind? name := by
  rw [kind?, lookup, bind, List.findSome?_cons, List.lookup_cons]
  by_cases h : name = key
  · rw [if_pos h, h, BEq.rfl]
    rfl
  · rw [if_neg h, beq_false_of_ne h, kind?, lookup, List.findSome?_cons]

lemma local?_bind (s : Scopes) (key : String) (kind : NameKind) (span : Span) (name : String) :
    (s.bind key kind span).local? name = if name = key then some kind else s.local? name := by
  rw [local?, lookupLocal, bind, List.lookup_cons]
  by_cases h : name = key
  · rw [if_pos h, h, BEq.rfl]
    rfl
  · rw [if_neg h, beq_false_of_ne h, local?, lookupLocal]

lemma kind?_of_local? (h : s.local? name = some kind) : s.kind? name = some kind := by
  obtain ⟨b, hb, hkind⟩ := Option.map_eq_some_iff.mp h
  have hlookup : s.inner.lookup name = some b := hb
  rw [kind?, lookup, List.findSome?_cons, hlookup, Option.map_some, hkind]

lemma local?_of_outer (h : s.outer = []) : s.local? name = s.kind? name := by
  rw [local?, kind?, lookup, h, List.findSome?_singleton, lookupLocal]

lemma declare_ok {span : Span} (h : s.declare name kind span = .ok s') :
    s = s' ∧ s.local? name = some kind ∨ s' = s.bind name kind span ∧ s.local? name = none := by
  rw [declare] at h
  split at h
  · rename_i previous hp
    split at h
    · rename_i hk
      cases h
      exact Or.inl ⟨rfl, by rw [local?, hp, Option.map_some, hk]⟩
    · cases h
  · rename_i hn
    cases h
    exact Or.inr ⟨rfl, by rw [local?, hn, Option.map_none]⟩

end Scopes

section Names

variable {s : Scopes} {kind : NameKind} {name : String}

lemma outer_bindAll (s : Scopes) (kind : NameKind) (names : List Declared) :
    (bindAll s kind names).outer = s.outer := by
  induction names generalizing s with
  | nil => rfl
  | cons d names ih => exact ih (s.bind d.name kind d.span)

lemma Scopes.kind?_bindAll (s : Scopes) (kind : NameKind) (names : List Declared) (name : String) :
    (bindAll s kind names).kind? name = if name ∈ names.map Declared.name then some kind else s.kind? name := by
  induction names generalizing s with
  | nil => rfl
  | cons d names ih =>
    have hbind : (bindAll s kind (d :: names)).kind? name = _ := ih (s.bind d.name kind d.span)
    simp only [hbind, kind?_bind, List.map_cons, List.mem_cons]
    by_cases hmem : name ∈ names.map Declared.name
    · rw [if_pos hmem, if_pos (Or.inr hmem)]
    · rw [if_neg hmem]
      simp only [hmem, or_false]

end Names

structure Declares (kind : NameKind) (names : List String) (s s' : Scopes) : Prop where
  outer_eq : s'.outer = s.outer
  local_eq : ∀ name ∈ names, s'.local? name = some kind
  compatible : ∀ name ∈ names, ∀ other, s.local? name = some other → other = kind
  local_other : ∀ name ∉ names, s'.local? name = s.local? name
  kind_other : ∀ name ∉ names, s'.kind? name = s.kind? name

namespace Declares

variable {kind : NameKind} {names others : List String} {s s' s'' : Scopes}

lemma nil (kind : NameKind) (s : Scopes) : Declares kind [] s s :=
  ⟨rfl, nofun, nofun, fun _ _ => rfl, fun _ _ => rfl⟩

lemma local_mono (h : Declares kind names s s') {name : String} {k : NameKind} (hk : s.local? name = some k) :
    s'.local? name = some k := by
  by_cases hmem : name ∈ names
  · rw [h.local_eq name hmem, h.compatible name hmem k hk]
  · rw [h.local_other name hmem, hk]

lemma append (h : Declares kind names s s') (h' : Declares kind others s' s'') :
    Declares kind (names ++ others) s s'' where
  outer_eq := h'.outer_eq.trans h.outer_eq
  local_eq name hmem := by
    rcases List.mem_append.mp hmem with hmem | hmem
    · exact h'.local_mono (h.local_eq name hmem)
    · exact h'.local_eq name hmem
  compatible name hmem other ho := by
    rcases List.mem_append.mp hmem with hmem | hmem
    · exact h.compatible name hmem other ho
    · exact h'.compatible name hmem other (h.local_mono ho)
  local_other name hmem := by
    rw [List.mem_append, not_or] at hmem
    rw [h'.local_other name hmem.2, h.local_other name hmem.1]
  kind_other name hmem := by
    rw [List.mem_append, not_or] at hmem
    rw [h'.kind_other name hmem.2, h.kind_other name hmem.1]

end Declares

namespace Checker

variable {s s' : Scopes} {kind : NameKind}

lemma declares_of_declare {d : Declared} (h : declare s kind d = .ok s') : Declares kind [d.name] s s' := by
  rw [declare] at h
  split at h
  · rename_i s₁ hs
    obtain rfl := Except.ok.inj h
    obtain ⟨rfl, hk⟩ | ⟨rfl, hn⟩ := Scopes.declare_ok hs
    · refine ⟨rfl, ?_, ?_, fun _ _ => rfl, fun _ _ => rfl⟩
      · rintro name hmem
        rwa [List.mem_singleton.mp hmem]
      · rintro name hmem other ho
        rw [List.mem_singleton.mp hmem, hk] at ho
        exact (Option.some.inj ho).symm
    · refine ⟨rfl, ?_, ?_, fun name hmem => ?_, fun name hmem => ?_⟩
      · rintro name hmem
        rw [List.mem_singleton.mp hmem, Scopes.local?_bind, if_pos rfl]
      · rintro name hmem other ho
        rw [List.mem_singleton.mp hmem, hn] at ho
        cases ho
      · rw [Scopes.local?_bind, if_neg (fun he => hmem (List.mem_singleton.mpr he))]
      · rw [Scopes.kind?_bind, if_neg (fun he => hmem (List.mem_singleton.mpr he))]
  · cases h

lemma declares_of_declareAll {names : List Declared} (h : declareAll s kind names = .ok s') :
    Declares kind (names.map Declared.name) s s' := by
  induction names generalizing s with
  | nil =>
    obtain rfl := Except.ok.inj h
    exact .nil kind s
  | cons d names ih =>
    rw [declareAll, List.foldlM_cons] at h
    cases hd : declare s kind d with
    | error e =>
      rw [hd] at h
      cases h
    | ok s₁ =>
      rw [hd] at h
      exact (declares_of_declare hd).append (ih h)

end Checker

end Ramify.C
