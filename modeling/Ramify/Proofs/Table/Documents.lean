import Ramify.Proofs.Json.RoundTrip
import Ramify.Proofs.Table.Validation

namespace Ramify.Table

open Json (Value maxNat)

def SymbolWord : Symbol → Prop
  | .term t => t ≤ maxNat
  | .nonterm n => n ≤ maxNat

def ActionWord : Action → Prop
  | .shift s => s ≤ maxNat
  | .reduce p => p ≤ maxNat
  | .accept => True

structure ProductionWords (p : Production) : Prop where
  index : p.index ≤ maxNat
  lhs : p.lhs ≤ maxNat
  ordinal : p.ordinal ≤ maxNat
  rhs : ∀ s ∈ p.rhs, SymbolWord s

structure Words (T : Table) : Prop where
  version : T.version ≤ 4294967295
  endMark : T.endMark ≤ maxNat
  productions : ∀ p ∈ T.productions, ProductionWords p
  actions : ∀ row ∈ T.actions, ∀ c ∈ row, c.1 ≤ maxNat ∧ ∀ a ∈ c.2, ActionWord a
  gotos : ∀ row ∈ T.gotos, ∀ e ∈ row, e.1 ≤ maxNat ∧ e.2 ≤ maxNat

section Writing

variable {T : Table}

lemma kept_record {members : List (String × Value)} (h : ∀ m ∈ members, m.2.Kept) : (Value.record members).Kept := by
  refine .object (fun m hm => ?_) fun m hm => ?_
  · obtain ⟨m', _, rfl⟩ := List.mem_map.mp hm
    rfl
  · obtain ⟨m', hm', rfl⟩ := List.mem_map.mp hm
    exact h m' hm'

lemma kept_array {α : Type} {write : α → Value} {l : List α} (h : ∀ a ∈ l, (write a).Kept) :
    (Value.array (l.map write)).Kept := by
  refine .array fun v hv => ?_
  obtain ⟨a, ha, rfl⟩ := List.mem_map.mp hv
  exact h a ha

lemma kept_symbol {s : Symbol} (h : SymbolWord s) : (symbolValue s).Kept := by
  cases s <;> exact kept_record (List.forall_mem_singleton.mpr (.nat h))

lemma kept_action {a : Action} (h : ActionWord a) : (actionValue a).Kept := by
  cases a with
  | shift s => exact kept_record (List.forall_mem_singleton.mpr (.nat h))
  | reduce p => exact kept_record (List.forall_mem_singleton.mpr (.nat h))
  | accept => exact .str "Accept"

lemma kept_pair {v w : Value} (hv : v.Kept) (hw : w.Kept) : (Value.array [v, w]).Kept :=
  .array (List.forall_mem_cons.mpr ⟨hv, List.forall_mem_singleton.mpr hw⟩)

lemma kept_production {p : Production} (h : ProductionWords p) : (productionValue p).Kept := by
  refine kept_record ?_
  simp only [List.forall_mem_cons]
  exact ⟨.nat h.index, .str _, .nat h.lhs, .nat h.ordinal,
    kept_array fun s hs => kept_symbol (h.rhs s hs), nofun⟩

lemma Words.kept (h : T.Words) : T.toValue.Kept := by
  refine kept_record ?_
  simp only [List.forall_mem_cons]
  refine ⟨.nat (h.version.trans (by decide)), kept_array fun s _ => .str s, kept_array fun s _ => .str s,
    kept_array fun p hp => kept_production (h.productions p (Array.mem_toList_iff.mp hp)), .nat h.endMark,
    kept_array fun row hrow => kept_array fun c hc => ?_, kept_array fun row hrow => kept_array fun e he => ?_, nofun⟩
  · obtain ⟨hterminal, hactions⟩ := h.actions row (Array.mem_toList_iff.mp hrow) c (Array.mem_toList_iff.mp hc)
    exact kept_pair (.nat hterminal) (kept_array fun a ha => kept_action (hactions a ha))
  · obtain ⟨hnonterminal, htarget⟩ := h.gotos row (Array.mem_toList_iff.mp hrow) e (Array.mem_toList_iff.mp he)
    exact kept_pair (.nat hnonterminal) (.nat htarget)

end Writing

section Reading

variable {α : Type} {write : α → Value} {read? : Value → Option α}

lemma list?_array (h : ∀ a, read? (write a) = some a) (l : List α) : list? read? (.array (l.map write)) = some l := by
  rw [list?]
  induction l with
  | nil => rfl
  | cons a l ih =>
    rw [List.map_cons, List.mapM_cons, h, ih]
    rfl

lemma array?_array (h : ∀ a, read? (write a) = some a) (l : Array α) :
    array? read? (.array (l.toList.map write)) = some l := by
  rw [array?, list?_array h]
  rfl

lemma symbol?_symbolValue (s : Symbol) : symbol? (symbolValue s) = some s := by
  cases s <;> rfl

lemma action?_actionValue (a : Action) : action? (actionValue a) = some a := by
  cases a <;> rfl

lemma productionOf?_productionValue (p : Production) : productionOf? (productionValue p) = some p := by
  have hfields : fields? ["index", "label", "lhs", "ordinal", "rhs"] (productionValue p) =
      some [.nat p.index, .string p.label, .nat p.lhs, .nat p.ordinal, .array (p.rhs.map symbolValue)] := by
    rfl
  rw [productionOf?, hfields]
  simp [nat?, string?, Value.string, list?_array symbol?_symbolValue]

lemma ofValue?_toValue {T : Table} (h : T.version ≤ 4294967295) : ofValue? T.toValue = some T := by
  have hfields : fields? ["version", "terminals", "nonterminals", "productions", "end", "actions", "gotos"] T.toValue =
      some [.nat T.version, .array (T.terminals.toList.map .string), .array (T.nonterminals.toList.map .string),
        .array (T.productions.toList.map productionValue), .nat T.endMark,
        .array (T.actions.toList.map fun row => .array (row.toList.map cellValue)),
        .array (T.gotos.toList.map fun row => .array (row.toList.map gotoValue))] := by
    rfl
  have hcell : ∀ c, pair? nat? (list? action?) (cellValue c) = some c := fun c => by
    rw [cellValue, pair?, list?_array action?_actionValue]
    rfl
  have hnames : ∀ names : Array String, array? string? (.array (names.toList.map .string)) = some names :=
    array?_array fun _ => rfl
  have hgoto : ∀ e, pair? nat? nat? (gotoValue e) = some e := fun _ => rfl
  rw [ofValue?, hfields]
  simp [nat?, word32?, h, hnames, array?_array productionOf?_productionValue, array?_array (array?_array hcell),
    array?_array (array?_array hgoto)]

end Reading

section Bounds

variable {α β : Type} {v : Value} {T : Table}

lemma forall_mem_of_mapM {f : α → Option β} {P : β → Prop} {l : List α} {l' : List β}
    (h : ∀ a ∈ l, ∀ b, f a = some b → P b) (hm : l.mapM f = some l') : ∀ b ∈ l', P b := by
  induction l generalizing l' with
  | nil =>
    obtain rfl := Option.some.inj hm
    nofun
  | cons a l ih =>
    rw [List.mapM_cons] at hm
    obtain ⟨b, hb, hm⟩ := Option.bind_eq_some_iff.mp hm
    obtain ⟨bs, hbs, hm⟩ := Option.bind_eq_some_iff.mp hm
    obtain rfl := Option.some.inj hm
    obtain ⟨ha, hl⟩ := List.forall_mem_cons.mp h
    exact List.forall_mem_cons.mpr ⟨ha b hb, ih hl hbs⟩

lemma nat?_words {n : Nat} (hv : v.Words) (h : nat? v = some n) : n ≤ maxNat := by
  cases hv with
  | nat hn => exact Option.some.inj h ▸ hn
  | _ => cases h

lemma word32?_le {n : Nat} (h : word32? v = some n) : n ≤ 4294967295 := by
  rw [word32?.eq_def] at h
  split at h
  · split at h
    · exact Option.some.inj h ▸ ‹_›
    · cases h
  · cases h

lemma list?_words {read? : Value → Option α} {P : α → Prop} (hread : ∀ w a, w.Words → read? w = some a → P a)
    {l : List α} (hv : v.Words) (h : list? read? v = some l) : ∀ a ∈ l, P a := by
  cases hv with
  | array hitems => exact forall_mem_of_mapM (fun w hw a ha => hread w a (hitems w hw) ha) h
  | _ => cases h

lemma array?_words {read? : Value → Option α} {P : α → Prop} (hread : ∀ w a, w.Words → read? w = some a → P a)
    {l : Array α} (hv : v.Words) (h : array? read? v = some l) : ∀ a ∈ l, P a := by
  obtain ⟨l, hl, rfl⟩ := Option.map_eq_some_iff.mp h
  exact fun a ha => list?_words hread hv hl a (List.mem_toArray.mp ha)

lemma pair?_words {fst? : Value → Option α} {snd? : Value → Option β} {P : α → Prop} {Q : β → Prop}
    (hfst : ∀ w a, w.Words → fst? w = some a → P a) (hsnd : ∀ w b, w.Words → snd? w = some b → Q b) {p : α × β}
    (hv : v.Words) (h : pair? fst? snd? v = some p) : P p.1 ∧ Q p.2 := by
  rw [pair?.eq_def] at h
  split at h
  · cases hv with
    | array hitems =>
      obtain ⟨a, ha, h⟩ := Option.bind_eq_some_iff.mp h
      obtain ⟨b, hb, h⟩ := Option.bind_eq_some_iff.mp h
      obtain rfl := Option.some.inj h
      exact ⟨hfst _ a (hitems _ (by simp)) ha, hsnd _ b (hitems _ (by simp)) hb⟩
  · cases h

lemma fields?_words {names : List String} {values : List Value} (hv : v.Words) (h : fields? names v = some values) :
    ∀ w ∈ values, w.Words := by
  cases hv with
  | array hitems =>
    obtain ⟨_, h⟩ := Option.ite_none_right_eq_some.mp h
    exact Option.some.inj h ▸ hitems
  | object hmembers =>
    obtain ⟨members, hm, h⟩ := Option.bind_eq_some_iff.mp h
    have hwords : ∀ m ∈ members, m.2.Words := by
      refine forall_mem_of_mapM (fun m hmem b hb => ?_) hm
      obtain ⟨_, _, rfl⟩ := Option.map_eq_some_iff.mp hb
      exact hmembers m hmem
    refine forall_mem_of_mapM (fun name _ w hw => ?_) h
    split at hw
    · rename_i hfilter
      obtain rfl := Option.some.inj hw
      exact hwords _ (List.mem_filter.mp (hfilter ▸ List.mem_singleton_self _)).1
    · cases hw
  | _ => cases h

lemma symbol?_words {s : Symbol} (hv : v.Words) (h : symbol? v = some s) : SymbolWord s := by
  rw [symbol?.eq_def] at h
  split at h
  · obtain ⟨n, hn, rfl⟩ := Option.map_eq_some_iff.mp h
    cases hv with
    | object hmembers => exact nat?_words (hmembers _ (List.mem_singleton_self _)) hn
  · obtain ⟨n, hn, rfl⟩ := Option.map_eq_some_iff.mp h
    cases hv with
    | object hmembers => exact nat?_words (hmembers _ (List.mem_singleton_self _)) hn
  · cases h

lemma action?_words {a : Action} (hv : v.Words) (h : action? v = some a) : ActionWord a := by
  rw [action?.eq_def] at h
  split at h
  · obtain rfl := Option.some.inj h
    trivial
  · obtain rfl := Option.some.inj h
    trivial
  · obtain ⟨n, hn, rfl⟩ := Option.map_eq_some_iff.mp h
    cases hv with
    | object hmembers => exact nat?_words (hmembers _ (List.mem_singleton_self _)) hn
  · obtain ⟨n, hn, rfl⟩ := Option.map_eq_some_iff.mp h
    cases hv with
    | object hmembers => exact nat?_words (hmembers _ (List.mem_singleton_self _)) hn
  · cases h

lemma productionOf?_words {p : Production} (hv : v.Words) (h : productionOf? v = some p) : ProductionWords p := by
  obtain ⟨values, hvalues, h⟩ := Option.bind_eq_some_iff.mp h
  have hwords := fields?_words hv hvalues
  split at h
  · simp only [Option.bind_eq_bind, Option.bind_eq_some_iff, Option.pure_def, Option.some.injEq] at h
    obtain ⟨_, hindex, _, _, _, hlhs, _, hordinal, _, hrhs, rfl⟩ := h
    simp only [List.forall_mem_cons] at hwords
    obtain ⟨hw₁, _, hw₃, hw₄, hw₅, _⟩ := hwords
    exact ⟨nat?_words hw₁ hindex, nat?_words hw₃ hlhs, nat?_words hw₄ hordinal,
      list?_words (fun _ _ hw hs => symbol?_words hw hs) hw₅ hrhs⟩
  · cases h

lemma ofValue?_words (hv : v.Words) (h : ofValue? v = some T) : T.Words := by
  obtain ⟨values, hvalues, h⟩ := Option.bind_eq_some_iff.mp h
  have hwords := fields?_words hv hvalues
  split at h
  · simp only [Option.bind_eq_bind, Option.bind_eq_some_iff, Option.pure_def, Option.some.injEq] at h
    obtain ⟨_, hversion, _, _, _, _, _, hproductions, _, hend, _, hactions, _, hgotos, rfl⟩ := h
    simp only [List.forall_mem_cons] at hwords
    obtain ⟨_, _, _, hw₄, hw₅, hw₆, hw₇, _⟩ := hwords
    refine ⟨word32?_le hversion, nat?_words hw₅ hend, array?_words (fun _ _ => productionOf?_words) hw₄ hproductions,
      array?_words (fun _ _ => array?_words fun _ _ => pair?_words (fun _ _ => nat?_words)
        fun _ _ => list?_words fun _ _ => action?_words) hw₆ hactions,
      array?_words (fun _ _ => array?_words fun _ _ => pair?_words (fun _ _ => nat?_words) fun _ _ => nat?_words) hw₇ hgotos⟩
  · cases h

end Bounds

lemma ofJson_toJson {T : Table} (h : T.Words) : ofJson T.toJson = T.validate.map fun _ => T := by
  have hread : (Json.parse? T.toJson).bind ofValue? = some T := by
    rw [toJson, Json.parse?_pretty h.kept, Option.bind_some, ofValue?_toValue h.version]
  rw [ofJson, hread]
  change (T.validate >>= fun _ => pure T) = _
  cases T.validate <;> rfl

lemma ofJson_words {text : String} {T : Table} (h : ofJson text = .ok T) : T.Words := by
  unfold ofJson at h
  split at h
  · rename_i T' hread
    obtain ⟨_, hT⟩ := then_eq_ok.mp h
    obtain rfl := Except.ok.inj hT
    obtain ⟨v, hv, hT⟩ := Option.bind_eq_some_iff.mp hread
    exact ofValue?_words (Json.parse?_words hv) hT
  · cases h

/-- Writing and reading gives the table back if it is valid, and otherwise the error of the check; a
table that was read once is read again from its own document. -/
theorem toJson_roundTrip :
    (∀ T : Table, T.Words → (T.validate = .ok () → ofJson T.toJson = .ok T) ∧ ∀ e, T.validate = .error e →
      ofJson T.toJson = .error e ∧ (T.version ≠ formatVersion ∧ e = .version T.version ∨
        T.version = formatVersion ∧ ∃ what index, e = .outOfRange what index)) ∧
    ∀ text T, ofJson text = .ok T → ofJson T.toJson = .ok T := by
  have hvalid : ∀ T : Table, T.Words → T.validate = .ok () → ofJson T.toJson = .ok T := fun T hw hv => by
    rw [ofJson_toJson hw, hv]
    rfl
  refine ⟨fun T hw => ⟨hvalid T hw, fun e he => ⟨?_, validate_eq_error he⟩⟩,
    fun text T h => hvalid T (ofJson_words h) (ofJson_eq_ok h)⟩
  rw [ofJson_toJson hw, he]
  rfl

def oddTable : Table where
  version := formatVersion
  terminals := #["a\"\n\\", "\u00fc"]
  nonterminals := #[""]
  productions := #[⟨7, "p", 0, maxNat, [.term 1, .nonterm 0]⟩]
  endMark := 1
  actions := #[#[(1, [.accept, .shift 0]), (0, [])]]
  gotos := #[#[]]

lemma oddTable_words : oddTable.Words := by
  refine ⟨by decide, by decide, fun p hp => ?_, ?_, ?_⟩
  · obtain rfl := Array.mem_singleton.mp hp
    exact ⟨by decide, by decide, le_rfl, by simp [SymbolWord, maxNat]⟩
  · intro row hrow c hc
    obtain rfl := Array.mem_singleton.mp hrow
    have hc : c = (1, [.accept, .shift 0]) ∨ c = (0, []) := by simpa using hc
    rcases hc with rfl | rfl
    · exact ⟨by decide, by simp [ActionWord]⟩
    · exact ⟨Nat.zero_le _, nofun⟩
  · simp [oddTable]

theorem toJson_roundTrip_odd : ofJson oddTable.toJson = .ok oddTable ∧
    ofJson { oddTable with endMark := 2 }.toJson = .error (.outOfRange .terminal 2) := by
  have hwords : { oddTable with endMark := 2 }.Words := { oddTable_words with endMark := by decide }
  exact ⟨(toJson_roundTrip.1 oddTable oddTable_words).1 (by decide), ((toJson_roundTrip.1 _ hwords).2 _ (by decide)).1⟩

end Ramify.Table
