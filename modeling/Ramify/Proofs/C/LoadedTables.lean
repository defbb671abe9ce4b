import Ramify.Proofs.C.StandardGrammar
import Ramify.Proofs.Table.Documents

namespace Ramify

namespace C.Vocabulary

section Assign

variable {α : Type} {place : String → Except MissingPart Nat} {entries : List (String × α)} {values out : Array α}
  {entry : String × α} {k : Nat}

lemma assign_elsewhere (h : assign place entries values = .ok out) (hk : ∀ e ∈ entries, place e.1 ≠ .ok k) :
    out[k]? = values[k]? := by
  induction entries generalizing values with
  | nil => exact Except.ok.inj h ▸ rfl
  | cons e rest ih =>
    obtain ⟨j, hlt, hj, h⟩ := assign_cons h
    rw [List.forall_mem_cons] at hk
    have hne : j ≠ k := fun he => hk.1 (he ▸ hj)
    rw [ih h hk.2, Array.getElem?_set_ne hlt hne]

lemma assign_at (h : assign place entries values = .ok out) (hkeys : (entries.map Prod.fst).Nodup)
    (hinj : ∀ name name' k, place name = .ok k → place name' = .ok k → name = name') (hentry : entry ∈ entries) :
    ∃ k, place entry.1 = .ok k ∧ out[k]? = some entry.2 := by
  induction entries generalizing values with
  | nil => cases hentry
  | cons e rest ih =>
    obtain ⟨j, hlt, hj, h⟩ := assign_cons h
    rw [List.map_cons, List.nodup_cons] at hkeys
    rcases List.mem_cons.mp hentry with rfl | hentry
    · refine ⟨j, hj, ?_⟩
      rw [assign_elsewhere h, Array.getElem?_set_self]
      intro e he hplace
      exact hkeys.1 (hinj _ _ _ hj hplace ▸ List.mem_map_of_mem he)
    · exact ih h hkeys.2 hentry

lemma assign_error {misfit : Misfit} (h : assign place entries values = .error misfit) :
    (∃ part, misfit = .missing part ∧ ∃ e ∈ entries, place e.1 = .error part) ∨
      ∃ e ∈ entries, ∃ k, place e.1 = .ok k ∧ values.size ≤ k := by
  induction entries generalizing values with
  | nil => cases h
  | cons e rest ih =>
    cases hk : place e.1 with
    | error part =>
      rw [assign, hk] at h
      exact Or.inl ⟨part, (Except.error.inj h).symm, e, List.mem_cons_self, hk⟩
    | ok k =>
      rw [assign, hk] at h
      dsimp only at h
      split at h
      · rcases ih h with ⟨part, rfl, e', he', hplace⟩ | ⟨e', he', j, hplace, hle⟩
        · exact Or.inl ⟨part, rfl, e', List.mem_cons_of_mem _ he', hplace⟩
        · exact Or.inr ⟨e', List.mem_cons_of_mem _ he', j, hplace, by rwa [Array.size_set] at hle⟩
      · rename_i hle
        exact Or.inr ⟨e, List.mem_cons_self, k, hk, Nat.le_of_not_lt hle⟩

end Assign

variable {T : Table}

def Lacks (T : Table) : MissingPart → Prop
  | .production label => ∀ p ∈ T.productions, p.label ≠ label
  | .nonterminal name => name ∉ T.nonterminals

lemma rolePlace_eq_ok {label : String} {k : Nat} :
    rolePlace T label = .ok k ↔ ∃ p, T.production? label = some p ∧ p.index = k := by
  rw [rolePlace]
  cases T.production? label <;> simp

lemma categoryPlace_eq_ok {name : String} {k : Nat} : categoryPlace T name = .ok k ↔ T.nonterminal? name = some k := by
  rw [categoryPlace]
  cases T.nonterminal? name <;> simp

lemma rolePlace_error {label : String} {part : MissingPart} (h : rolePlace T label = .error part) : Lacks T part := by
  rw [rolePlace] at h
  split at h
  · cases h
  · rename_i hfind
    obtain rfl := Except.error.inj h
    intro p hp hlabel
    exact Array.find?_eq_none.mp hfind p hp (beq_iff_eq.mpr hlabel)

lemma categoryPlace_error {name : String} {part : MissingPart} (h : categoryPlace T name = .error part) :
    Lacks T part := by
  rw [categoryPlace] at h
  split at h
  · cases h
  · rename_i hfind
    obtain rfl := Except.error.inj h
    intro hmem
    have hfound : (T.nonterminals.findIdx? (· == name)).isSome := by
      rw [Array.findIdx?_isSome, Array.any_eq_true']
      exact ⟨name, hmem, beq_self_eq_true _⟩
    rw [Table.nonterminal?] at hfind
    rw [hfind] at hfound
    cases hfound

lemma nonterminal?_spec {name : String} {n : Nat} (h : T.nonterminal? name = some n) :
    T.nonterminals[n]? = some name := by
  rw [Table.nonterminal?, Array.findIdx?_eq_some_iff_getElem] at h
  obtain ⟨hlt, hname, _⟩ := h
  rw [Array.getElem?_eq_getElem hlt, eq_of_beq hname]

lemma ofTable_categories {V : Vocabulary} (h : ofTable T = .ok V) {entry : String × Category}
    (hentry : entry ∈ Category.names) : ∃ n, T.nonterminal? entry.1 = some n ∧ V.categories[n]? = some entry.2 := by
  obtain ⟨_, categories, _, hc, rfl⟩ := ofTable_eq h
  have hinj : ∀ name name' k, categoryPlace T name = .ok k → categoryPlace T name' = .ok k → name = name' := by
    intro name name' k hk hk'
    have hname := nonterminal?_spec (categoryPlace_eq_ok.mp hk)
    exact Option.some.inj (hname.symm.trans (nonterminal?_spec (categoryPlace_eq_ok.mp hk')))
  obtain ⟨n, hn, hout⟩ := assign_at hc Rules.names_nodup hinj hentry
  exact ⟨n, categoryPlace_eq_ok.mp hn, hout⟩

section Placed

variable (hindex : ∀ (i : Nat) (p : Production), T.productions[i]? = some p → p.index = i)

include hindex

lemma production?_spec {label : String} {p : Production} (h : T.production? label = some p) :
    T.productions[p.index]? = some p ∧ p.label = label := by
  obtain ⟨i, hi⟩ := Array.mem_iff_getElem?.mp (Array.mem_of_find?_eq_some h)
  rw [Table.production?] at h
  have hlabel := Array.find?_some h
  exact ⟨hindex i p hi ▸ hi, eq_of_beq hlabel⟩

lemma ofTable_roles {V : Vocabulary} (h : ofTable T = .ok V) {entry : String × Role} (hentry : entry ∈ Role.labels) :
    ∃ p, T.production? entry.1 = some p ∧ V.role? p.index = some entry.2 := by
  obtain ⟨roles, _, hr, _, rfl⟩ := ofTable_eq h
  have hinj : ∀ label label' k, rolePlace T label = .ok k → rolePlace T label' = .ok k → label = label' := by
    intro label label' k hk hk'
    obtain ⟨p, hp, rfl⟩ := rolePlace_eq_ok.mp hk
    obtain ⟨p', hp', he⟩ := rolePlace_eq_ok.mp hk'
    obtain ⟨hget, hlabel⟩ := production?_spec hindex hp
    obtain ⟨hget', hlabel'⟩ := production?_spec hindex hp'
    rw [he, hget] at hget'
    rw [← hlabel, ← hlabel', Option.some.inj hget']
  obtain ⟨k, hk, hout⟩ := assign_at hr Rules.labels_nodup hinj hentry
  obtain ⟨p, hp, rfl⟩ := rolePlace_eq_ok.mp hk
  exact ⟨p, hp, hout⟩

lemma ofTable_error {misfit : Misfit} (h : ofTable T = .error misfit) :
    ∃ part, misfit = .missing part ∧ Lacks T part := by
  rw [ofTable] at h
  cases hr : assign (rolePlace T) Role.labels (Array.replicate T.productions.size .other) with
  | error misfit' =>
    rw [hr] at h
    obtain rfl := Except.error.inj h
    rcases assign_error hr with ⟨part, rfl, _, _, hplace⟩ | ⟨_, _, k, hplace, hle⟩
    · exact ⟨part, rfl, rolePlace_error hplace⟩
    · obtain ⟨p, hp, rfl⟩ := rolePlace_eq_ok.mp hplace
      have hlt := (Array.getElem?_eq_some_iff.mp (production?_spec hindex hp).1).1
      rw [Array.size_replicate] at hle
      exact absurd hlt (Nat.not_lt_of_le hle)
  | ok roles =>
    rw [hr] at h
    change (assign _ _ _ >>= _) = _ at h
    cases hc : assign (categoryPlace T) Category.names (Array.replicate T.nonterminals.size .other) with
    | error misfit' =>
      rw [hc] at h
      obtain rfl := Except.error.inj h
      rcases assign_error hc with ⟨part, rfl, _, _, hplace⟩ | ⟨_, _, k, hplace, hle⟩
      · exact ⟨part, rfl, categoryPlace_error hplace⟩
      · have hname := nonterminal?_spec (categoryPlace_eq_ok.mp hplace)
        rw [Array.size_replicate] at hle
        exact absurd (Array.getElem?_eq_some_iff.mp hname).1 (Nat.not_lt_of_le hle)
    | ok categories =>
      rw [hc] at h
      cases h

end Placed

end C.Vocabulary

namespace Table

open C

variable {T : Table}

lemma actionsAt_of_mem {s t : Nat} {row : Array (Nat × List Action)} {actions : List Action}
    (hrow : T.actions[s]? = some row) (hsorted : Sorted row) (h : (t, actions) ∈ row) : T.actionsAt s t = actions := by
  rw [actionsAt, hrow, Option.bind_some, (find?_eq_some hsorted).mpr h]
  rfl

lemma mem_of_actionsAt {s t : Nat} {row : Array (Nat × List Action)} (hrow : T.actions[s]? = some row)
    (h : T.actionsAt s t ≠ []) : (t, T.actionsAt s t) ∈ row := by
  rw [actionsAt, hrow, Option.bind_some] at h ⊢
  cases hf : find? row t with
  | none =>
    rw [hf] at h
    exact absurd rfl h
  | some actions => exact mem_of_find? hf

/-- A table that is read from a document gives each of its productions a role and a category, if it
serves the front end at all. -/
theorem ofJson_covers {text : String} (h : ofJson text = .ok T) {V : Vocabulary} (hV : Vocabulary.ofTable T = .ok V)
    {i : Nat} (hi : i < T.productions.size) : V.Covers i := by
  have hrange := (validate_eq_ok.mp (ofJson_eq_ok h)).2
  exact Vocabulary.ofTable_covers hV (Array.getElem?_eq_getElem hi) (hrange.left_lt _ (Array.getElem_mem hi))

/-- In a table that is read from a document, each state has its rows, and a lookup gives nothing that
its row does not have. In a sorted row it gives all that the row has. If the productions carry their
places, a label leads to a production that has it, and the front end either misses a part that the table
lacks or has each role at the production of its label and each category at its nonterminal. -/
theorem ofJson_lookups {text : String} (h : ofJson text = .ok T) :
    (∀ s < T.stateCount, ∃ row gotos, T.actions[s]? = some row ∧ T.gotos[s]? = some gotos ∧
      (∀ t, T.actionsAt s t ≠ [] → (t, T.actionsAt s t) ∈ row) ∧
      (∀ n target, T.goto? s n = some target → (n, target) ∈ gotos) ∧
      (Sorted row → ∀ t actions, (t, actions) ∈ row → T.actionsAt s t = actions) ∧
      (Sorted gotos → ∀ n target, (n, target) ∈ gotos → T.goto? s n = some target)) ∧
    ((∀ (i : Nat) (p : Production), T.productions[i]? = some p → p.index = i) →
      (∀ label p, T.production? label = some p → T.productions[p.index]? = some p ∧ p.label = label) ∧
      ((∃ part, Vocabulary.ofTable T = .error (.missing part) ∧ Vocabulary.Lacks T part) ∨
        ∃ V, Vocabulary.ofTable T = .ok V ∧ V.table = T ∧
          (∀ entry ∈ Role.labels, ∃ p, T.production? entry.1 = some p ∧ V.role? p.index = some entry.2) ∧
          ∀ entry ∈ Category.names, ∃ n, T.nonterminal? entry.1 = some n ∧ V.categories[n]? = some entry.2)) := by
  have hrange := (validate_eq_ok.mp (ofJson_eq_ok h)).2
  refine ⟨fun s hs => ?_, fun hindex => ⟨fun label p hp => Vocabulary.production?_spec hindex hp, ?_⟩⟩
  · obtain ⟨row, hrow⟩ : ∃ row, T.actions[s]? = some row := ⟨_, Array.getElem?_eq_getElem hs⟩
    obtain ⟨gotos, hgotos⟩ : ∃ gotos, T.gotos[s]? = some gotos :=
      ⟨_, Array.getElem?_eq_getElem (hrange.gotos_size.symm ▸ hs : s < T.gotos.size)⟩
    have hgoto : ∀ n, T.goto? s n = find? gotos n := by
      intro n
      rw [goto?, hgotos, Option.bind_some]
    refine ⟨row, gotos, hrow, hgotos, fun t ht => mem_of_actionsAt hrow ht, fun n target hn => ?_,
      fun hsorted t actions ht => actionsAt_of_mem hrow hsorted ht, fun hsorted n target hn => ?_⟩
    · exact mem_of_find? (hgoto n ▸ hn)
    · rw [hgoto, find?_eq_some hsorted]
      exact hn
  · cases hV : Vocabulary.ofTable T with
    | error misfit =>
      obtain ⟨part, rfl, hlacks⟩ := Vocabulary.ofTable_error hindex hV
      exact Or.inl ⟨part, rfl, hlacks⟩
    | ok V =>
      refine Or.inr ⟨V, rfl, ?_, fun entry he => Vocabulary.ofTable_roles hindex hV he,
        fun entry he => Vocabulary.ofTable_categories hV he⟩
      obtain ⟨_, _, _, _, rfl⟩ := Vocabulary.ofTable_eq hV
      rfl

def labelText : String :=
  "[1, [\"a\", \"end\"], [\"S\"], [[0, \"s\", 0, 1, []]], 1,
    [[[0, [\x7b\"Shift\": 0\x7d]], [1, [\"Accept\"]]]], [[[0, 0]]]]"

def labelTable : Table where
  version := 1
  terminals := #["a", "end"]
  nonterminals := #["S"]
  productions := #[⟨0, "s", 0, 1, []⟩]
  endMark := 1
  actions := #[#[(0, [.shift 0]), (1, [.accept])]]
  gotos := #[#[(0, 0)]]

def servedTable : Table where
  version := 1
  terminals := #["a", "end"]
  nonterminals := (Category.names.map Prod.fst).toArray
  productions := (Role.labels.zipIdx.map fun (entry, i) => ⟨i, entry.1, 0, 1, []⟩).toArray
  endMark := 1
  actions := #[#[(0, [.shift 0]), (1, [.accept])]]
  gotos := #[#[(0, 0)]]

lemma ofJson_served : ofJson servedTable.toJson = .ok servedTable := by
  have hwords : servedTable.Words := by
    refine ⟨by decide, by decide, fun p hp => ?_, ?_, ?_⟩
    · have hsmall : ∀ p ∈ servedTable.productions,
          p.index ≤ Json.maxNat ∧ p.lhs ≤ Json.maxNat ∧ p.ordinal ≤ Json.maxNat ∧ p.rhs = [] := by decide +kernel
      obtain ⟨hindex, hlhs, hordinal, hrhs⟩ := hsmall p hp
      refine ⟨hindex, hlhs, hordinal, ?_⟩
      rw [hrhs]
      exact List.forall_mem_nil _
    · intro row hrow c hc
      obtain rfl := Array.mem_singleton.mp hrow
      have hc : c = (0, [.shift 0]) ∨ c = (1, [.accept]) := by simpa using hc
      rcases hc with rfl | rfl <;> simp [ActionWord, Json.maxNat]
    · simp [servedTable, Json.maxNat]
  have hvalid : servedTable.validate = .ok () := by decide +kernel
  rw [ofJson_toJson hwords, hvalid]
  rfl

lemma index_eq_of_range (h : T.productions.toList.map Production.index = List.range T.productions.size) (i : Nat)
    (p : Production) (hp : T.productions[i]? = some p) : p.index = i := by
  have hi : (T.productions.toList.map Production.index)[i]? = some p.index := by
    rw [List.getElem?_map, Array.getElem?_toList, hp]
    rfl
  rw [h, List.getElem?_eq_some_iff] at hi
  obtain ⟨_, hi⟩ := hi
  rw [← hi, List.getElem_range]

theorem ofJson_lookups_both :
    (ofJson labelText = .ok labelTable ∧
      labelTable.actionsAt 0 1 = [.accept] ∧ labelTable.goto? 0 0 = some 0 ∧
      ∃ part, Vocabulary.ofTable labelTable = .error (.missing part) ∧ Vocabulary.Lacks labelTable part) ∧
    ofJson servedTable.toJson = .ok servedTable ∧
      (∃ p, servedTable.production? "forDecl" = some p ∧ servedTable.productions[p.index]? = some p) ∧
      ∃ V, Vocabulary.ofTable servedTable = .ok V ∧ V.table = servedTable ∧ V.role? 3 = some .typedefStorage ∧
        V.role? 11 = none ∧ V.categories[16]? = some .compoundStatement := by
  refine ⟨?_, ofJson_served, ?_⟩
  · have hread : ofJson labelText = .ok labelTable := by decide +kernel
    obtain ⟨hstates, hproductions⟩ := ofJson_lookups hread
    obtain ⟨row, gotos, hr, hg, _, _, hactions, hgoto⟩ := hstates 0 Nat.one_pos
    obtain rfl : #[(0, [.shift 0]), (1, [.accept])] = row := Option.some.inj hr
    obtain rfl : #[(0, 0)] = gotos := Option.some.inj hg
    have hone : labelTable.actionsAt 0 1 = [.accept] := hactions (by simp [Sorted]) 1 _ (by simp)
    have hzero : labelTable.goto? 0 0 = some 0 := hgoto (by simp [Sorted]) 0 0 (by simp)
    refine ⟨hread, hone, hzero, ?_⟩
    rcases (hproductions (index_eq_of_range rfl)).2 with hlacks | ⟨_, _, _, hroles, _⟩
    · exact hlacks
    · obtain ⟨p, hp, _⟩ := hroles ("typedefName", .typedefName) (by decide +kernel)
      have hnone : labelTable.production? "typedefName" = none := by decide +kernel
      rw [hnone] at hp
      cases hp
  · obtain ⟨hlabel, hparts⟩ := (ofJson_lookups ofJson_served).2 (index_eq_of_range (by decide +kernel))
    have hfind : servedTable.production? "forDecl" = some ⟨9, "forDecl", 0, 1, []⟩ := by decide +kernel
    refine ⟨⟨_, hfind, (hlabel _ _ hfind).1⟩, ?_⟩
    rcases hparts with ⟨part, hpart, _⟩ | ⟨V, hV, hT, hroles, hcategories⟩
    · have hok : (Vocabulary.ofTable servedTable).isOk = true := by decide +kernel
      rw [hpart] at hok
      cases hok
    · obtain ⟨p, hp, hrole⟩ := hroles ("typedefStorage", .typedefStorage) (by decide +kernel)
      obtain ⟨n, hn, hcategory⟩ := hcategories ("CompoundStatement", .compoundStatement) (by decide +kernel)
      have hp' : servedTable.production? "typedefStorage" = some ⟨3, "typedefStorage", 0, 1, []⟩ := by decide +kernel
      have hn' : servedTable.nonterminal? "CompoundStatement" = some 16 := by decide +kernel
      obtain rfl := Option.some.inj (hp'.symm.trans hp)
      obtain rfl := Option.some.inj (hn'.symm.trans hn)
      have hsize : V.roles.size = 11 := by
        obtain ⟨_, _, hr, _, rfl⟩ := Vocabulary.ofTable_eq hV
        exact Vocabulary.assign_size hr
      exact ⟨V, hV, hT, hrole, Array.getElem?_eq_none hsize.le, hcategory⟩

example : (ofJson "[1, [\"a\", \"end\"], [], [], 1, [[[1, [\"Accept\"]], [0, []]]], [[]]]").toOption.map (·.actionsAt 0 1) =
    some [] := by decide +kernel

end Table

end Ramify
