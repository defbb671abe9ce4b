import Ramify.Proofs.Grammar.Numbering
import Ramify.Proofs.Table.Lookup
import Ramify.Table.Artifact

namespace Ramify.Table

section Checks

variable {ε α β : Type}

lemma then_eq_ok {x : Except ε Unit} {f : Unit → Except ε β} {b : β} :
    (x >>= f) = .ok b ↔ x = .ok () ∧ f () = .ok b := by
  constructor
  · intro h
    obtain ⟨_, hx, hf⟩ := Grammar.ok_of_bind h
    exact ⟨hx, hf⟩
  · rintro ⟨rfl, h⟩
    exact h

def checkAll (check : α → Except ε Unit) : List α → Except ε Unit
  | [] => .ok ()
  | a :: rest => check a >>= fun _ => checkAll check rest

variable {check : α → Except ε Unit} {l : List α}

lemma forIn_eq_checkAll {body : α → PUnit → Except ε (ForInStep PUnit)}
    (h : ∀ a, body a ⟨⟩ = check a >>= fun _ => pure (.yield ⟨⟩)) : forIn l PUnit.unit body = checkAll check l := by
  induction l with
  | nil => rfl
  | cons a l ih =>
    rw [List.forIn_cons, h, checkAll]
    cases check a with
    | error e => rfl
    | ok => exact ih

lemma checkAll_eq_ok : checkAll check l = .ok () ↔ ∀ a ∈ l, check a = .ok () := by
  induction l with
  | nil => exact iff_of_true rfl nofun
  | cons a l ih =>
    rw [checkAll, then_eq_ok, List.forall_mem_cons, ← ih]

def Reports (P : ε → Prop) (x : Except ε α) : Prop := ∀ e, x = .error e → P e

variable {P : ε → Prop}

lemma Reports.bind {x : Except ε α} {f : α → Except ε β} (hx : Reports P x) (hf : ∀ a, Reports P (f a)) :
    Reports P (x >>= f) := by
  cases x with
  | error e => exact fun e' h => Except.error.inj h ▸ hx e rfl
  | ok a => exact hf a

lemma Reports.checkAll (h : ∀ a, Reports P (check a)) (l : List α) : Reports P (checkAll check l) := by
  induction l with
  | nil => exact nofun
  | cons a l ih => exact (h a).bind fun _ => ih

end Checks

variable (T : Table)

def checkProduction (p : Production) : Except TableError Unit := do
  checkIndex .nonterminal p.lhs T.nonterminals.size
  checkAll T.checkSymbol p.rhs

def checkCell (c : Nat × List Action) : Except TableError Unit := do
  checkIndex .terminal c.1 T.terminals.size
  checkAll T.checkAction c.2

def checkGoto (e : Nat × Nat) : Except TableError Unit := do
  checkIndex .nonterminal e.1 T.nonterminals.size
  checkIndex .state e.2 T.stateCount

lemma validate_eq : T.validate =
    if T.version ≠ formatVersion then .error (.version T.version)
    else (do
      checkIndex .terminal T.endMark T.terminals.size
      checkAll T.checkProduction T.productions.toList
      checkAll (fun row => checkAll T.checkCell row.toList) T.actions.toList
      if T.gotos.size ≠ T.stateCount then throw (.outOfRange .gotoRow T.gotos.size)
      checkAll (fun row => checkAll T.checkGoto row.toList) T.gotos.toList) := by
  have hproductions : (forIn T.productions.toList PUnit.unit fun p _ => do
      checkIndex .nonterminal p.lhs T.nonterminals.size
      forIn p.rhs PUnit.unit fun s _ => do
        T.checkSymbol s
        pure (ForInStep.yield PUnit.unit)
      pure (ForInStep.yield PUnit.unit)) = checkAll T.checkProduction T.productions.toList := by
    refine forIn_eq_checkAll fun p => ?_
    rw [forIn_eq_checkAll fun s => rfl, checkProduction, bind_assoc]
  have hactions : (forIn T.actions.toList PUnit.unit fun row _ => do
      forIn row.toList PUnit.unit fun c _ => do
        checkIndex .terminal c.1 T.terminals.size
        forIn c.2 PUnit.unit fun a _ => do
          T.checkAction a
          pure (ForInStep.yield PUnit.unit)
        pure (ForInStep.yield PUnit.unit)
      pure (ForInStep.yield PUnit.unit)) =
        checkAll (fun row => checkAll T.checkCell row.toList) T.actions.toList := by
    refine forIn_eq_checkAll fun row => ?_
    have hrow : (forIn row.toList PUnit.unit fun c _ => do
        checkIndex .terminal c.1 T.terminals.size
        forIn c.2 PUnit.unit fun a _ => do
          T.checkAction a
          pure (ForInStep.yield PUnit.unit)
        pure (ForInStep.yield PUnit.unit)) = checkAll T.checkCell row.toList :=
      forIn_eq_checkAll fun c => by rw [forIn_eq_checkAll fun a => rfl, checkCell, bind_assoc]
    rw [hrow]
  have hgotos : (forIn T.gotos.toList PUnit.unit fun row _ => do
      forIn row.toList PUnit.unit fun e _ => do
        checkIndex .nonterminal e.1 T.nonterminals.size
        checkIndex .state e.2 T.stateCount
        pure (ForInStep.yield PUnit.unit)
      pure (ForInStep.yield PUnit.unit)) =
        checkAll (fun row => checkAll T.checkGoto row.toList) T.gotos.toList := by
    refine forIn_eq_checkAll fun row => ?_
    have hrow : (forIn row.toList PUnit.unit fun e _ => do
        checkIndex .nonterminal e.1 T.nonterminals.size
        checkIndex .state e.2 T.stateCount
        pure (ForInStep.yield PUnit.unit)) = checkAll T.checkGoto row.toList :=
      forIn_eq_checkAll fun e => by rw [checkGoto, bind_assoc]
    rw [hrow]
  rw [validate, ← hproductions, ← hactions, ← hgotos]
  split
  · rfl
  · split <;> simp

variable {T}

lemma checkIndex_eq_ok {what : Reference} {index bound : Nat} : checkIndex what index bound = .ok () ↔ index < bound := by
  rw [checkIndex]
  split
  · rename_i h
    exact iff_of_true rfl h
  · rename_i h
    exact iff_of_false nofun h

variable (T) in
def SymbolInRange : Symbol → Prop
  | .term t => t < T.terminals.size
  | .nonterm n => n < T.nonterminals.size

variable (T) in
def ActionInRange : Action → Prop
  | .shift s => s < T.stateCount
  | .reduce p => p < T.productions.size
  | .accept => True

lemma checkSymbol_eq_ok {s : Symbol} : T.checkSymbol s = .ok () ↔ T.SymbolInRange s := by
  cases s <;> exact checkIndex_eq_ok

lemma checkAction_eq_ok {a : Action} : T.checkAction a = .ok () ↔ T.ActionInRange a := by
  cases a with
  | shift s => exact checkIndex_eq_ok
  | reduce p => exact checkIndex_eq_ok
  | accept => exact iff_of_true rfl trivial

lemma checkProduction_eq_ok {p : Production} : T.checkProduction p = .ok () ↔
    p.lhs < T.nonterminals.size ∧ ∀ s ∈ p.rhs, T.SymbolInRange s := by
  simp only [checkProduction, then_eq_ok, checkIndex_eq_ok, checkAll_eq_ok, checkSymbol_eq_ok]

lemma checkCell_eq_ok {c : Nat × List Action} : T.checkCell c = .ok () ↔
    c.1 < T.terminals.size ∧ ∀ a ∈ c.2, T.ActionInRange a := by
  simp only [checkCell, then_eq_ok, checkIndex_eq_ok, checkAll_eq_ok, checkAction_eq_ok]

lemma checkGoto_eq_ok {e : Nat × Nat} : T.checkGoto e = .ok () ↔
    e.1 < T.nonterminals.size ∧ e.2 < T.stateCount := by
  simp only [checkGoto, then_eq_ok, checkIndex_eq_ok]

variable (T) in
structure InRange : Prop where
  endMark_lt : T.endMark < T.terminals.size
  left_lt : ∀ p ∈ T.productions, p.lhs < T.nonterminals.size
  right : ∀ p ∈ T.productions, ∀ s ∈ p.rhs, T.SymbolInRange s
  terminal_lt : ∀ row ∈ T.actions, ∀ c ∈ row, c.1 < T.terminals.size
  action : ∀ row ∈ T.actions, ∀ c ∈ row, ∀ a ∈ c.2, T.ActionInRange a
  gotos_size : T.gotos.size = T.stateCount
  goto_lt : ∀ row ∈ T.gotos, ∀ e ∈ row, e.1 < T.nonterminals.size ∧ e.2 < T.stateCount

lemma validate_eq_ok : T.validate = .ok () ↔ T.version = formatVersion ∧ T.InRange := by
  rw [validate_eq]
  split
  · rename_i hv
    exact iff_of_false nofun fun h => hv h.1
  · rename_i hv
    rw [and_iff_right (not_not.mp hv)]
    simp only [then_eq_ok, checkIndex_eq_ok, checkAll_eq_ok, checkProduction_eq_ok, checkCell_eq_ok,
      Array.mem_toList_iff]
    constructor
    · rintro ⟨hend, hproductions, hactions, h⟩
      split at h
      · cases h
      · rename_i hsize
        rw [checkAll_eq_ok] at h
        simp only [checkAll_eq_ok, checkGoto_eq_ok, Array.mem_toList_iff] at h
        exact ⟨hend, fun p hp => (hproductions p hp).1, fun p hp => (hproductions p hp).2,
          fun row hrow c hc => (hactions row hrow c hc).1, fun row hrow c hc => (hactions row hrow c hc).2,
          not_not.mp hsize, h⟩
    · intro h
      rw [if_neg (not_not.mpr h.gotos_size)]
      refine ⟨h.endMark_lt, fun p hp => ⟨h.left_lt p hp, h.right p hp⟩,
        fun row hrow c hc => ⟨h.terminal_lt row hrow c hc, h.action row hrow c hc⟩, ?_⟩
      simpa only [checkAll_eq_ok, checkGoto_eq_ok, Array.mem_toList_iff] using h.goto_lt

lemma checkIndex_reports (what : Reference) (index bound : Nat) :
    Reports (∃ what index, · = TableError.outOfRange what index) (checkIndex what index bound) := by
  intro e h
  rw [checkIndex] at h
  split at h
  · cases h
  · exact ⟨what, index, (Except.error.inj h).symm⟩

lemma validate_eq_error {e : TableError} (h : T.validate = .error e) :
    T.version ≠ formatVersion ∧ e = .version T.version ∨
      T.version = formatVersion ∧ ∃ what index, e = .outOfRange what index := by
  rw [validate_eq] at h
  split at h
  · rename_i hv
    exact Or.inl ⟨hv, (Except.error.inj h).symm⟩
  · rename_i hv
    refine Or.inr ⟨not_not.mp hv, ?_⟩
    revert h
    refine Reports.bind (checkIndex_reports _ _ _) (fun _ => Reports.bind (Reports.checkAll (fun p => ?_) _) fun _ =>
      Reports.bind (Reports.checkAll (fun row => Reports.checkAll (fun c => ?_) _) _) fun _ => ?_) e
    · exact (checkIndex_reports _ _ _).bind fun _ => Reports.checkAll (fun s => by cases s <;> exact checkIndex_reports _ _ _) _
    · refine (checkIndex_reports _ _ _).bind fun _ => Reports.checkAll (fun a => ?_) _
      cases a with
      | shift s => exact checkIndex_reports _ _ _
      | reduce p => exact checkIndex_reports _ _ _
      | accept => exact nofun
    · split
      · exact fun e h => ⟨_, _, (Except.error.inj h).symm⟩
      · exact Reports.checkAll (fun row => Reports.checkAll (fun e =>
          (checkIndex_reports _ _ _).bind fun _ => checkIndex_reports _ _ _) _) _

lemma ofJson_eq_ok {text : String} (h : ofJson text = .ok T) : T.validate = .ok () := by
  unfold ofJson at h
  split at h
  · obtain ⟨hv, hT⟩ := then_eq_ok.mp h
    obtain rfl := Except.ok.inj hT
    exact hv
  · cases h

lemma exists_cell_of_mem {s t : Nat} {a : Action} (h : a ∈ T.actionsAt s t) :
    ∃ row ∈ T.actions, ∃ c ∈ row, a ∈ c.2 := by
  rw [actionsAt] at h
  cases hrow : T.actions[s]? with
  | none =>
    rw [hrow] at h
    cases h
  | some row =>
    rw [hrow, Option.bind_some] at h
    cases hf : find? row t with
    | none =>
      rw [hf] at h
      cases h
    | some actions =>
      rw [hf] at h
      exact ⟨row, Array.mem_of_getElem? hrow, _, mem_of_find? hf, h⟩

lemma InRange.actionsAt (h : T.InRange) {s t : Nat} {a : Action} (ha : a ∈ T.actionsAt s t) : T.ActionInRange a := by
  obtain ⟨row, hrow, c, hc, ha⟩ := exists_cell_of_mem ha
  exact h.action row hrow c hc a ha

lemma InRange.goto?_lt (h : T.InRange) {s n target : Nat} (hg : T.goto? s n = some target) : target < T.stateCount := by
  obtain ⟨row, hrow, hf⟩ := Option.bind_eq_some_iff.mp hg
  exact (h.goto_lt row (Array.mem_of_getElem? hrow) _ (mem_of_find? hf)).2

def nameAt? : Symbol → Option String
  | .term t => T.terminals[t]?
  | .nonterm n => T.nonterminals[n]?

lemma symbolName_eq {s : Symbol} (h : T.SymbolInRange s) : T.nameAt? s = some (T.symbolName s) := by
  cases s with
  | term t =>
    have ht : t < T.terminals.size := h
    simp [nameAt?, symbolName, ht]
  | nonterm n =>
    have hn : n < T.nonterminals.size := h
    simp [nameAt?, symbolName, hn]

lemma InRange.productionText (h : T.InRange) {index : Nat} {p : Production} (hp : T.productions[index]? = some p) :
    ∃ left right, T.nonterminals[p.lhs]? = some left ∧ List.Forall₂ (fun s name => T.nameAt? s = some name) p.rhs right ∧
      T.productionText index = left ++ " ->" ++ String.join (right.map (" " ++ ·)) := by
  have hmem := Array.mem_of_getElem? hp
  have hleft : T.SymbolInRange (.nonterm p.lhs) := h.left_lt p hmem
  refine ⟨T.symbolName (.nonterm p.lhs), p.rhs.map T.symbolName, symbolName_eq hleft, ?_, ?_⟩
  · rw [List.forall₂_map_right_iff, List.forall₂_same]
    exact fun s hs => symbolName_eq (h.right p hmem s hs)
  · rw [Table.productionText, hp, List.map_map]
    rfl

end Ramify.Table
