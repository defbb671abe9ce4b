import Ramify.Json
import Mathlib

namespace Ramify.Json

section Numbers

def Ends (rest : List Char) : Prop :=
  ∀ c, rest.head? = some c → c.isDigit = false ∧ c ≠ '.' ∧ c ≠ 'e' ∧ c ≠ 'E'

variable {rest : List Char} {n : Nat}

lemma natOfDigits_toDigits (n : Nat) : natOfDigits (Nat.toDigits 10 n) = n := by
  have hfold : natOfDigits (Nat.toDigits 10 n) = Nat.ofDigitChars 10 (Nat.toDigits 10 n) 0 := by
    simp only [natOfDigits, Nat.ofDigitChars_eq_foldl, Nat.mul_comm]
    rfl
  rw [hfold, Nat.ofDigitChars_toDigits (by decide) le_rfl]

lemma isDigit_of_mem {c : Char} (h : c ∈ Nat.toDigits 10 n) : c.isDigit = true :=
  Nat.isDigit_of_mem_toDigits (by decide) le_rfl h

lemma head_toDigits_ne (h : n ≠ 0) : (Nat.toDigits 10 n).head? ≠ some '0' := by
  induction n using Nat.strong_induction_on with
  | _ n ih =>
    rw [Nat.toDigits_eq_if (by decide)]
    split
    · intro he
      exact h (Nat.digitChar_eq_zero.mp (Option.some.inj he))
    · rename_i hlarge
      rw [List.head?_append_of_ne_nil _ Nat.toDigits_ne_nil]
      exact ih (n / 10) (by omega) (by omega)

lemma digits?_toDigits (h : Ends rest) : digits? (Nat.toDigits 10 n ++ rest) = some (Nat.toDigits 10 n, rest) := by
  have htake : rest.takeWhile Char.isDigit = [] := by
    cases rest with
    | nil => rfl
    | cons c rest => exact List.takeWhile_cons_of_neg (by rw [(h c rfl).1]; exact Bool.false_ne_true)
  have hdrop : rest.dropWhile Char.isDigit = rest := by
    cases rest with
    | nil => rfl
    | cons c rest => exact List.dropWhile_cons_of_neg (by rw [(h c rfl).1]; exact Bool.false_ne_true)
  rw [digits?, List.takeWhile_append_of_pos fun c hc => isDigit_of_mem hc, htake, List.append_nil,
    List.dropWhile_append_of_pos fun c hc => isDigit_of_mem hc, hdrop]
  split
  · exact absurd ‹_› Nat.toDigits_ne_nil
  · rfl

lemma whole?_toDigits (h : Ends rest) : whole? (Nat.toDigits 10 n ++ rest) = some (Nat.toDigits 10 n, rest) := by
  rw [whole?.eq_def]
  split
  · rename_i tail he
    have hzero : n = 0 := by
      by_contra hne
      refine head_toDigits_ne hne ?_
      rw [← List.head?_append_of_ne_nil _ Nat.toDigits_ne_nil, he]
      rfl
    subst hzero
    rw [Nat.toDigits_zero] at he ⊢
    obtain rfl : rest = tail := (List.cons.inj he).2
    rw [if_neg]
    intro hdigit
    obtain ⟨c, hc, hdigit⟩ := (Option.any_eq_true _ _).mp hdigit
    rw [(h c hc).1] at hdigit
    cases hdigit
  · exact digits?_toDigits h

lemma fraction?_ends (h : Ends rest) : fraction? rest = some (false, rest) := by
  rw [fraction?.eq_def]
  split
  · exact absurd rfl (h '.' rfl).2.1
  · rfl

lemma exponent?_ends (h : Ends rest) : exponent? rest = some (false, rest) := by
  rw [exponent?.eq_def]
  split
  · exact absurd rfl (h 'e' rfl).2.2.1
  · exact absurd rfl (h 'E' rfl).2.2.2
  · rfl

lemma readNumber_toDigits (hn : n ≤ maxNat) (h : Ends rest) :
    readNumber false (Nat.toDigits 10 n ++ rest) = some (.nat n, rest) := by
  rw [readNumber, whole?_toDigits h]
  change (fraction? rest >>= _) = _
  rw [fraction?_ends h]
  change (exponent? rest >>= _) = _
  rw [exponent?_ends h]
  change some (if _ then _ else _, _) = _
  rw [natOfDigits_toDigits, if_pos (by simpa using hn)]

end Numbers

section Strings

variable {c e : Char} {tail : List Char}

lemma stringUnit?_control (hc : c.toNat < 32) :
    stringUnit? '\\' ('u' :: '0' :: '0' :: (Text.hexByte c.toNat.toUInt8 ++ tail)) = some (some c, 5) := by
  have hhex : ∀ n < 32, hex4? '0' '0' (Text.hexDigit (n / 16)) (Text.hexDigit (n % 16)) = some n ∧
      isLow n = false ∧ isHigh n = false := by decide
  obtain ⟨hread, hlow, hhigh⟩ := hhex _ hc
  have hbyte : c.toNat.toUInt8.toNat = c.toNat := Nat.mod_eq_of_lt (hc.trans (by decide))
  rw [Text.hexByte, hbyte]
  change (hex4? '0' '0' _ _ >>= _) = _
  rw [hread]
  change (if isLow c.toNat = true then _ else if (!isHigh c.toNat) = true then _ else _) = _
  rw [hlow, hhigh, if_neg Bool.false_ne_true, Bool.not_false, if_pos rfl, Char.ofNat_toNat]

lemma stringUnits_unit {n : Nat} (he : e ≠ '"') (h : stringUnit? e tail = some (some c, n)) :
    stringUnits (e :: tail) = (stringUnits (tail.drop n)).map fun p => (some c :: p.1, p.2) := by
  rw [stringUnits, if_neg he, h]

lemma stringUnits_short (he : e ≠ 'u') (h : shortEscape? e = some c) :
    stringUnits ('\\' :: e :: tail) = (stringUnits tail).map fun p => (some c :: p.1, p.2) := by
  refine stringUnits_unit (n := 1) (by decide) ?_
  rw [stringUnit?.eq_def, if_neg (by decide), if_neg (by decide)]
  split
  · rename_i heq
    exact absurd (List.cons.inj heq).1 he
  · rename_i heq
    rw [← (List.cons.inj heq).1, h]
    rfl
  · rename_i heq
    cases heq

lemma stringUnits_escape (c : Char) (tail : List Char) :
    stringUnits (escapeChar c ++ tail) = (stringUnits tail).map fun p => (some c :: p.1, p.2) := by
  rw [escapeChar]
  split_ifs with hquote hback hnewline hreturn htab hbs hff hcontrol
  · subst hquote
    exact stringUnits_short (by decide) rfl
  · subst hback
    exact stringUnits_short (by decide) rfl
  · subst hnewline
    exact stringUnits_short (by decide) rfl
  · subst hreturn
    exact stringUnits_short (by decide) rfl
  · subst htab
    exact stringUnits_short (by decide) rfl
  · rw [← Char.ofNat_toNat c, hbs]
    exact stringUnits_short (by decide) rfl
  · rw [← Char.ofNat_toNat c, hff]
    exact stringUnits_short (by decide) rfl
  · exact stringUnits_unit (n := 5) (by decide) (stringUnit?_control hcontrol)
  · refine stringUnits_unit (n := 0) hquote ?_
    rw [stringUnit?.eq_def, if_neg hcontrol, if_pos hback]

lemma readString_escaped (s : String) (rest : List Char) :
    readString (s.toList.flatMap escapeChar ++ '"' :: rest) = some (some s, rest) := by
  have hunits : ∀ cs : List Char, stringUnits (cs.flatMap escapeChar ++ '"' :: rest) = some (cs.map some, rest) := by
    intro cs
    induction cs with
    | nil => rw [List.flatMap_nil, List.nil_append, stringUnits, if_pos rfl]; rfl
    | cons c cs ih => rw [List.flatMap_cons, List.append_assoc, stringUnits_escape, ih]; rfl
  have hall : ∀ cs : List Char, (cs.map some).mapM id = some cs := by
    intro cs
    induction cs with
    | nil => rfl
    | cons c cs ih => rw [List.map_cons, List.mapM_cons, ih]; rfl
  rw [readString, hunits, Option.map_some]
  dsimp only
  rw [hall, Option.map_some, String.ofList_toList]

end Strings

section Blanks

variable {blank rest : List Char} {fuel : Nat}

lemma skipBlank_append (h : ∀ c ∈ blank, isBlank c = true) : skipBlank (blank ++ rest) = skipBlank rest :=
  List.dropWhile_append_of_pos h

lemma skipBlank_cons {c : Char} (h : isBlank c = false) : skipBlank (c :: rest) = c :: rest :=
  List.dropWhile_cons_of_neg (Bool.eq_false_iff.mp h)

lemma readValue_append (h : ∀ c ∈ blank, isBlank c = true) : readValue fuel (blank ++ rest) = readValue fuel rest := by
  cases fuel with
  | zero => rfl
  | succ fuel => rw [readValue, readValue, skipBlank_append h]

lemma readValue_space : readValue fuel (' ' :: rest) = readValue fuel rest := by
  have hblank : ∀ c ∈ [' '], isBlank c = true := fun c hc => by
    rw [List.mem_singleton.mp hc]
    rfl
  exact readValue_append hblank

lemma readMembers_append (h : ∀ c ∈ blank, isBlank c = true) :
    readMembers fuel (blank ++ rest) = readMembers fuel rest := by
  cases fuel with
  | zero => rfl
  | succ fuel => rw [readMembers, readMembers, skipBlank_append h]

lemma readValue_digit {c : Char} (hc : c.isDigit = true) :
    readValue (fuel + 1) (c :: rest) = readNumber false (c :: rest) := by
  have hne : ∀ d, d.isDigit = false → c ≠ d := fun d hd he => by rw [he, hd] at hc; cases hc
  have hblank : isBlank c = false := by
    simp [isBlank, hne ' ' rfl, hne '\n' rfl, hne '\t' rfl, hne '\r' rfl]
  rw [readValue, skipBlank_cons hblank]
  split
  · exact absurd (List.cons.inj ‹_›).1 (hne 'n' rfl)
  · exact absurd (List.cons.inj ‹_›).1 (hne 't' rfl)
  · exact absurd (List.cons.inj ‹_›).1 (hne 'f' rfl)
  · exact absurd (List.cons.inj ‹_›).1 (hne '"' rfl)
  · exact absurd (List.cons.inj ‹_›).1 (hne '[' rfl)
  · exact absurd (List.cons.inj ‹_›).1 (hne '\x7b' rfl)
  · exact absurd (List.cons.inj ‹_›).1 (hne '-' rfl)
  · rfl

lemma readValue_string : readValue (fuel + 1) ('"' :: rest) = (readString rest).map fun (s, more) => (.str s, more) := rfl

lemma readValue_bracket : readValue (fuel + 1) ('[' :: rest) =
    match skipBlank rest with
    | ']' :: more => some (.array [], more)
    | _ => (readItems fuel rest).map fun (items, more) => (.array items, more) := rfl

lemma readValue_brace : readValue (fuel + 1) ('\x7b' :: rest) =
    match skipBlank rest with
    | '\x7d' :: more => some (.object [], more)
    | _ => (readMembers fuel rest).map fun (members, more) => (.object members, more) := rfl

def Opens (rest : List Char) : Prop := ∃ c tail, rest = c :: tail ∧ isBlank c = false ∧ c ≠ ']' ∧ c ≠ '\x7d'

lemma readValue_items (hblank : ∀ c ∈ blank, isBlank c = true) (h : Opens rest) :
    readValue (fuel + 1) ('[' :: (blank ++ rest)) =
      (readItems fuel (blank ++ rest)).map fun (items, more) => (.array items, more) := by
  obtain ⟨c, tail, rfl, hc, hne, _⟩ := h
  rw [readValue_bracket, skipBlank_append hblank, skipBlank_cons hc]
  split
  · exact absurd (List.cons.inj ‹_›).1 hne
  · rfl

lemma readValue_members (hblank : ∀ c ∈ blank, isBlank c = true) (h : Opens rest) :
    readValue (fuel + 1) ('\x7b' :: (blank ++ rest)) =
      (readMembers fuel (blank ++ rest)).map fun (members, more) => (.object members, more) := by
  obtain ⟨c, tail, rfl, hc, _, hne⟩ := h
  rw [readValue_brace, skipBlank_append hblank, skipBlank_cons hc]
  split
  · exact absurd (List.cons.inj ‹_›).1 hne
  · rfl

section Lists

variable {cs more : List Char} {v : Value} {key : Option String}

lemma readItems_last (hblank : ∀ c ∈ blank, isBlank c = true) (h : readValue fuel cs = some (v, blank ++ ']' :: rest)) :
    readItems (fuel + 1) cs = some ([v], rest) := by
  rw [readItems, h]
  dsimp only
  rw [skipBlank_append hblank]
  rfl

lemma readItems_next (h : readValue fuel cs = some (v, ',' :: more)) :
    readItems (fuel + 1) cs = (readItems fuel more).map fun (items, more) => (v :: items, more) := by
  rw [readItems, h]
  rfl

variable (hkey : readString cs = some (key, ':' :: more))

include hkey

lemma readMembers_last (hblank : ∀ c ∈ blank, isBlank c = true)
    (h : readValue fuel more = some (v, blank ++ '\x7d' :: rest)) :
    readMembers (fuel + 1) ('"' :: cs) = some ([(key, v)], rest) := by
  have hquote : isBlank '"' = false := by decide
  have hcolon : isBlank ':' = false := by decide
  have hclose : isBlank '\x7d' = false := by decide
  simp only [readMembers, skipBlank_cons hquote, hkey, skipBlank_cons hcolon, h, skipBlank_append hblank,
    skipBlank_cons hclose]

lemma readMembers_next {next : List Char} (h : readValue fuel more = some (v, ',' :: next)) :
    readMembers (fuel + 1) ('"' :: cs) =
      (readMembers fuel next).map fun (members, more) => ((key, v) :: members, more) := by
  have hquote : isBlank '"' = false := by decide
  have hcolon : isBlank ':' = false := by decide
  have hcomma : isBlank ',' = false := by decide
  simp only [readMembers, skipBlank_cons hquote, hkey, skipBlank_cons hcolon, h, skipBlank_cons hcomma]

end Lists

end Blanks

section Layout

def gap (depth : Nat) : List Char := '\n' :: List.replicate (2 * depth) ' '

def listed (depth : Nat) : List (List Char) → List Char
  | [] => []
  | [x] => gap depth ++ x
  | x :: y :: rest => gap depth ++ x ++ ',' :: listed depth (y :: rest)

lemma listed_cons (depth : Nat) (x : List Char) (xs : List (List Char)) :
    ∃ more, listed depth (x :: xs) = gap depth ++ (x ++ more) := by
  cases xs with
  | nil => exact ⟨[], by rw [listed, List.append_nil]⟩
  | cons y xs => exact ⟨',' :: listed depth (y :: xs), by rw [listed, List.append_assoc]⟩

lemma isBlank_gap (depth : Nat) : ∀ c ∈ gap depth, isBlank c = true := by
  intro c hc
  rcases List.mem_cons.mp hc with rfl | hc
  · rfl
  · obtain rfl := (List.mem_replicate.mp hc).2
    rfl

lemma ends_gap (depth : Nat) (rest : List Char) : Ends (gap depth ++ rest) := by
  intro c hc
  obtain rfl := Option.some.inj hc
  decide

lemma ends_comma {rest : List Char} : Ends (',' :: rest) := by
  intro c hc
  obtain rfl := Option.some.inj hc
  decide

lemma newline_toList (depth : Nat) : (newline depth).toList = gap depth := by
  simp [newline, gap]

lemma enclose_toList (left right : String) (depth : Nat) {items : List String} (h : items ≠ []) :
    (enclose left right depth items).toList =
      left.toList ++ (listed (depth + 1) (items.map String.toList) ++ (gap depth ++ right.toList)) := by
  have hlisted : ∀ items : List String, items ≠ [] →
      (",".intercalate (items.map (newline (depth + 1) ++ ·))).toList = listed (depth + 1) (items.map String.toList) := by
    intro items hne
    induction items with
    | nil => exact absurd rfl hne
    | cons x items ih =>
      cases items with
      | nil => simp [listed, newline_toList]
      | cons y items =>
        have hrest := ih (List.cons_ne_nil y items)
        simp only [List.map_cons, String.intercalate_cons_cons, String.toList_append, newline_toList, listed] at hrest ⊢
        rw [hrest, List.append_assoc]
        rfl
  rw [enclose, if_neg (by simpa using h)]
  simp only [String.toList_append, hlisted items h, newline_toList, List.append_assoc]

lemma stringText_toList (s : String) : (stringText s).toList = '"' :: (s.toList.flatMap escapeChar ++ ['"']) := by
  simp [stringText]

end Layout

/-- Printing loses nothing of a value. -/
inductive Value.Kept : Value → Prop
  | null : Kept .null
  | bool (b : Bool) : Kept (.bool b)
  | nat {n : Nat} : n ≤ maxNat → Kept (.nat n)
  | str (s : String) : Kept (.str (some s))
  | array {items : List Value} : (∀ v ∈ items, Kept v) → Kept (.array items)
  | object {members : List (Option String × Value)} : (∀ m ∈ members, m.1.isSome = true) →
      (∀ m ∈ members, Kept m.2) → Kept (.object members)

def Value.Reads (v : Value) : Prop := ∀ {depth fuel : Nat} {rest : List Char}, Ends rest →
  2 * (pretty depth v).toList.length ≤ fuel + 1 → readValue (fuel + 1) ((pretty depth v).toList ++ rest) = some (v, rest)

lemma pretty_null (depth : Nat) : pretty depth .null = "null" := rfl

lemma pretty_bool (depth : Nat) (b : Bool) : pretty depth (.bool b) = if b then "true" else "false" := rfl

lemma pretty_otherNumber (depth : Nat) : pretty depth .otherNumber = "0" := rfl

lemma pretty_nat (depth n : Nat) : (pretty depth (.nat n)).toList = Nat.toDigits 10 n := Nat.toList_repr

lemma pretty_str (depth : Nat) (s : Option String) :
    (pretty depth (.str s)).toList = '"' :: ((s.getD "").toList.flatMap escapeChar ++ ['"']) :=
  stringText_toList (s.getD "")

lemma pretty_array_nil (depth : Nat) : (pretty depth (.array [])).toList = ['[', ']'] := by
  change ("[" ++ "]").toList = _
  rw [String.toList_append]
  rfl

lemma pretty_array (depth : Nat) {items : List Value} (h : items ≠ []) : (pretty depth (.array items)).toList =
    '[' :: (listed (depth + 1) ((prettyItems (depth + 1) items).map String.toList) ++ (gap depth ++ [']'])) := by
  refine enclose_toList "[" "]" depth ?_
  cases items with
  | nil => exact absurd rfl h
  | cons v items => exact List.cons_ne_nil _ _

lemma pretty_object_nil (depth : Nat) : (pretty depth (.object [])).toList = ['\x7b', '\x7d'] := by
  change ("\x7b" ++ "\x7d").toList = _
  rw [String.toList_append]
  rfl

lemma pretty_object (depth : Nat) {members : List (Option String × Value)} (h : members ≠ []) :
    (pretty depth (.object members)).toList = '\x7b' ::
      (listed (depth + 1) ((prettyMembers (depth + 1) members).map String.toList) ++ (gap depth ++ ['\x7d'])) := by
  refine enclose_toList "\x7b" "\x7d" depth ?_
  cases members with
  | nil => exact absurd rfl h
  | cons m members => exact List.cons_ne_nil _ _

lemma opens_pretty (v : Value) (depth : Nat) (rest : List Char) : Opens ((pretty depth v).toList ++ rest) := by
  cases v with
  | null =>
    rw [pretty_null]
    exact ⟨'n', _, rfl, by decide⟩
  | bool b =>
    rw [pretty_bool]
    cases b with
    | true => exact ⟨'t', _, rfl, by decide⟩
    | false => exact ⟨'f', _, rfl, by decide⟩
  | nat n =>
    rw [pretty_nat]
    obtain ⟨c, cs, he⟩ := List.exists_cons_of_ne_nil (Nat.toDigits_ne_nil (n := n) (b := 10))
    have hc : c.isDigit = true := isDigit_of_mem (n := n) (he ▸ List.mem_cons_self)
    have hne : ∀ d, d.isDigit = false → c ≠ d := fun d hd he => by rw [he, hd] at hc; cases hc
    rw [he]
    exact ⟨c, _, rfl, by simp [isBlank, hne ' ' rfl, hne '\n' rfl, hne '\t' rfl, hne '\r' rfl], hne ']' rfl, hne '\x7d' rfl⟩
  | otherNumber =>
    rw [pretty_otherNumber]
    exact ⟨'0', _, rfl, by decide⟩
  | str s =>
    rw [pretty_str]
    exact ⟨'"', _, rfl, by decide⟩
  | array items =>
    by_cases h : items = []
    · rw [h, pretty_array_nil]
      exact ⟨'[', _, rfl, by decide⟩
    · rw [pretty_array depth h]
      exact ⟨'[', _, rfl, by decide⟩
  | object members =>
    by_cases h : members = []
    · rw [h, pretty_object_nil]
      exact ⟨'\x7b', _, rfl, by decide⟩
    · rw [pretty_object depth h]
      exact ⟨'\x7b', _, rfl, by decide⟩

lemma listed_two (depth : Nat) (v w : Value) (items : List Value) :
    listed depth ((prettyItems depth (v :: w :: items)).map String.toList) = gap depth ++
      ((pretty depth v).toList ++ ',' :: listed depth ((prettyItems depth (w :: items)).map String.toList)) := by
  simp only [prettyItems, List.map_cons, listed, List.append_assoc]

lemma readValue_listed_items (depth fuel : Nat) (v : Value) (items : List Value) (tail : List Char) :
    readValue (fuel + 1) ('[' :: (listed depth ((prettyItems depth (v :: items)).map String.toList) ++ tail)) =
      (readItems fuel (listed depth ((prettyItems depth (v :: items)).map String.toList) ++ tail)).map
        fun (items, more) => (.array items, more) := by
  obtain ⟨more, hmore⟩ := listed_cons depth (pretty depth v).toList ((prettyItems depth items).map String.toList)
  rw [prettyItems, List.map_cons, hmore, List.append_assoc, List.append_assoc]
  exact readValue_items (isBlank_gap depth) (opens_pretty v depth _)

lemma member_toList (depth : Nat) (k : String) (v : Value) : (stringText k ++ ": " ++ pretty depth v).toList =
    '"' :: (k.toList.flatMap escapeChar ++ '"' :: ':' :: ' ' :: (pretty depth v).toList) := by
  rw [String.toList_append, String.toList_append, stringText_toList]
  simp

lemma listed_two_members (depth : Nat) (k : String) (v : Value) (m : Option String × Value)
    (members : List (Option String × Value)) :
    listed depth ((prettyMembers depth ((some k, v) :: m :: members)).map String.toList) = gap depth ++
      ('"' :: (k.toList.flatMap escapeChar ++ '"' :: ':' :: ' ' :: ((pretty depth v).toList ++
        ',' :: listed depth ((prettyMembers depth (m :: members)).map String.toList)))) := by
  simp only [prettyMembers, List.map_cons, listed, List.append_assoc, Option.getD_some, member_toList, List.cons_append]

lemma readValue_listed_members (depth fuel : Nat) (k : String) (v : Value) (members : List (Option String × Value))
    (tail : List Char) :
    readValue (fuel + 1) ('\x7b' :: (listed depth ((prettyMembers depth ((some k, v) :: members)).map String.toList) ++ tail)) =
      (readMembers fuel (listed depth ((prettyMembers depth ((some k, v) :: members)).map String.toList) ++ tail)).map
        fun (members, more) => (.object members, more) := by
  obtain ⟨more, hmore⟩ := listed_cons depth (stringText k ++ ": " ++ pretty depth v).toList
    ((prettyMembers depth members).map String.toList)
  rw [prettyMembers, Option.getD_some, List.map_cons, hmore, List.append_assoc, List.append_assoc, member_toList]
  exact readValue_members (isBlank_gap depth) ⟨'"', _, rfl, by decide⟩

lemma readItems_listed {items : List Value} (h : items ≠ []) (hv : ∀ v ∈ items, v.Reads) {depth fuel outer : Nat}
    {rest : List Char} (hfuel : 2 * (listed depth ((prettyItems depth items).map String.toList)).length ≤ fuel) :
    readItems (fuel + 1) (listed depth ((prettyItems depth items).map String.toList) ++ (gap outer ++ ']' :: rest)) =
      some (items, rest) := by
  induction items generalizing fuel with
  | nil => exact absurd rfl h
  | cons v items ih =>
    rw [List.forall_mem_cons] at hv
    cases items with
    | nil =>
      simp only [prettyItems, List.map_cons, List.map_nil, listed, gap, List.length_append, List.length_cons] at hfuel
      obtain ⟨f, rfl⟩ : ∃ f, fuel = f + 1 := ⟨fuel - 1, by omega⟩
      refine readItems_last (isBlank_gap outer) ?_
      simp only [prettyItems, List.map_cons, List.map_nil, listed]
      rw [List.append_assoc, readValue_append (isBlank_gap depth)]
      exact hv.1 (ends_gap outer _) (by omega)
    | cons w items =>
      rw [listed_two] at hfuel ⊢
      simp only [gap, List.length_append, List.length_cons] at hfuel
      obtain ⟨f, rfl⟩ : ∃ f, fuel = f + 1 := ⟨fuel - 1, by omega⟩
      have hnext : readValue (f + 1) (gap depth ++ ((pretty depth v).toList ++ ',' ::
          listed depth ((prettyItems depth (w :: items)).map String.toList)) ++ (gap outer ++ ']' :: rest)) =
          some (v, ',' :: (listed depth ((prettyItems depth (w :: items)).map String.toList) ++ (gap outer ++ ']' :: rest))) := by
        rw [List.append_assoc, List.append_assoc, readValue_append (isBlank_gap depth)]
        exact hv.1 ends_comma (by omega)
      rw [readItems_next hnext, ih (List.cons_ne_nil w items) hv.2 (by omega)]
      rfl

lemma readMembers_listed {members : List (Option String × Value)} (h : members ≠ [])
    (hkeys : ∀ m ∈ members, m.1.isSome = true) (hv : ∀ m ∈ members, m.2.Reads) {depth fuel outer : Nat} {rest : List Char}
    (hfuel : 2 * (listed depth ((prettyMembers depth members).map String.toList)).length ≤ fuel) :
    readMembers (fuel + 1) (listed depth ((prettyMembers depth members).map String.toList) ++ (gap outer ++ '\x7d' :: rest)) =
      some (members, rest) := by
  induction members generalizing fuel with
  | nil => exact absurd rfl h
  | cons m members ih =>
    rw [List.forall_mem_cons] at hkeys hv
    obtain ⟨key, v⟩ := m
    obtain ⟨k, rfl⟩ := Option.isSome_iff_exists.mp hkeys.1
    have hread : v.Reads := hv.1
    cases members with
    | nil =>
      simp only [prettyMembers, List.map_cons, List.map_nil, listed, Option.getD_some, member_toList, gap,
        List.length_append, List.length_cons] at hfuel
      obtain ⟨f, rfl⟩ : ∃ f, fuel = f + 1 := ⟨fuel - 1, by omega⟩
      simp only [prettyMembers, List.map_cons, List.map_nil, listed, Option.getD_some, member_toList, List.append_assoc,
        List.cons_append]
      rw [readMembers_append (isBlank_gap depth)]
      refine readMembers_last (readString_escaped k _) (isBlank_gap outer) ?_
      rw [readValue_space]
      exact hread (ends_gap outer _) (by omega)
    | cons m members =>
      rw [listed_two_members] at hfuel ⊢
      simp only [gap, List.length_append, List.length_cons] at hfuel
      obtain ⟨f, rfl⟩ : ∃ f, fuel = f + 1 := ⟨fuel - 1, by omega⟩
      simp only [List.append_assoc, List.cons_append]
      have hnext : readValue (f + 1) (' ' :: ((pretty depth v).toList ++ ',' ::
          (listed depth ((prettyMembers depth (m :: members)).map String.toList) ++ (gap outer ++ '\x7d' :: rest)))) =
          some (v, ',' :: (listed depth ((prettyMembers depth (m :: members)).map String.toList) ++
            (gap outer ++ '\x7d' :: rest))) := by
        rw [readValue_space]
        exact hread ends_comma (by omega)
      rw [readMembers_append (isBlank_gap depth), readMembers_next (readString_escaped k _) hnext,
        ih (List.cons_ne_nil m members) hkeys.2 hv.2 (by omega)]
      rfl

lemma Value.Kept.reads {v : Value} (h : v.Kept) : v.Reads := by
  induction h with
  | null =>
    intro depth fuel rest _ _
    rw [pretty_null]
    rfl
  | bool b =>
    intro depth fuel rest _ _
    rw [pretty_bool]
    cases b <;> rfl
  | nat hn =>
    rename_i n
    intro depth fuel rest hrest _
    obtain ⟨c, cs, he⟩ := List.exists_cons_of_ne_nil (Nat.toDigits_ne_nil (n := n) (b := 10))
    rw [pretty_nat, he, List.cons_append, readValue_digit (isDigit_of_mem (n := n) (he ▸ List.mem_cons_self)),
      ← List.cons_append, ← he]
    exact readNumber_toDigits hn hrest
  | str s =>
    intro depth fuel rest _ _
    rw [pretty_str, List.cons_append, readValue_string, List.append_assoc]
    exact congrArg (Option.map _) (readString_escaped s rest)
  | array _ ih =>
    rename_i items _
    intro depth fuel rest _ hfuel
    cases items with
    | nil =>
      rw [pretty_array_nil]
      rfl
    | cons v items =>
      rw [pretty_array depth (List.cons_ne_nil v items)] at hfuel ⊢
      simp only [List.length_cons, List.length_append] at hfuel
      obtain ⟨f, rfl⟩ : ∃ f, fuel = f + 1 := ⟨fuel - 1, by omega⟩
      rw [List.cons_append, List.append_assoc, List.append_assoc, readValue_listed_items]
      exact congrArg (Option.map _) (readItems_listed (List.cons_ne_nil v items) ih (by omega))
  | object hkeys _ ih =>
    rename_i members _
    intro depth fuel rest _ hfuel
    cases members with
    | nil =>
      rw [pretty_object_nil]
      rfl
    | cons m members =>
      obtain ⟨key, v⟩ := m
      obtain ⟨k, rfl⟩ := Option.isSome_iff_exists.mp (hkeys _ List.mem_cons_self)
      rw [pretty_object depth (List.cons_ne_nil _ members)] at hfuel ⊢
      simp only [List.length_cons, List.length_append] at hfuel
      obtain ⟨f, rfl⟩ : ∃ f, fuel = f + 1 := ⟨fuel - 1, by omega⟩
      rw [List.cons_append, List.append_assoc, List.append_assoc, readValue_listed_members]
      exact congrArg (Option.map _) (readMembers_listed (List.cons_ne_nil _ members) hkeys ih (by omega))

lemma parse?_pretty {v : Value} (h : v.Kept) : parse? (pretty 0 v) = some v := by
  have hread : readValue (2 * (pretty 0 v).toList.length + 1 + 1) ((pretty 0 v).toList ++ []) = some (v, []) :=
    h.reads (fun c hc => nomatch hc) (by omega)
  rw [List.append_nil] at hread
  rw [parse?, hread]
  rfl

inductive Value.Words : Value → Prop
  | null : Words .null
  | bool {b : Bool} : Words (.bool b)
  | nat {n : Nat} : n ≤ maxNat → Words (.nat n)
  | otherNumber : Words .otherNumber
  | str {s : Option String} : Words (.str s)
  | array {items : List Value} : (∀ v ∈ items, Words v) → Words (.array items)
  | object {members : List (Option String × Value)} : (∀ m ∈ members, Words m.2) → Words (.object members)

section Words

variable {cs rest : List Char} {v : Value}

lemma readNumber_words {negative : Bool} (h : readNumber negative cs = some (v, rest)) : v.Words := by
  simp only [readNumber, Option.bind_eq_bind, Option.bind_eq_some_iff, Option.pure_def, Option.some.injEq, Prod.mk.injEq] at h
  obtain ⟨_, _, _, _, _, _, rfl, _⟩ := h
  split
  · rename_i hplain
    simp only [Bool.and_eq_true, decide_eq_true_eq] at hplain
    exact .nat hplain.2
  · exact .otherNumber

lemma read_words (fuel : Nat) : (∀ {cs v rest}, readValue fuel cs = some (v, rest) → v.Words) ∧
    (∀ {cs items rest}, readItems fuel cs = some (items, rest) → ∀ v ∈ items, Value.Words v) ∧
    ∀ {cs members rest}, readMembers fuel cs = some (members, rest) → ∀ m ∈ members, Value.Words m.2 := by
  induction fuel with
  | zero => exact ⟨nofun, nofun, nofun⟩
  | succ fuel ih =>
    obtain ⟨hvalue, hitems, hmembers⟩ := ih
    refine ⟨fun {cs v rest} h => ?_, fun {cs items rest} h => ?_, fun {cs members rest} h => ?_⟩
    · rw [readValue] at h
      split at h
      · cases h
        exact .null
      · cases h
        exact .bool
      · cases h
        exact .bool
      · obtain ⟨_, _, he⟩ := Option.map_eq_some_iff.mp h
        cases he
        exact .str
      · split at h
        · cases h
          exact .array nofun
        · obtain ⟨_, hread, he⟩ := Option.map_eq_some_iff.mp h
          cases he
          exact .array (hitems hread)
      · split at h
        · cases h
          exact .object nofun
        · obtain ⟨_, hread, he⟩ := Option.map_eq_some_iff.mp h
          cases he
          exact .object (hmembers hread)
      · exact readNumber_words h
      · exact readNumber_words h
    · rw [readItems] at h
      split at h
      · cases h
      · rename_i v more hread
        split at h
        · obtain ⟨_, hrest, he⟩ := Option.map_eq_some_iff.mp h
          cases he
          exact List.forall_mem_cons.mpr ⟨hvalue hread, hitems hrest⟩
        · cases h
          exact List.forall_mem_singleton.mpr (hvalue hread)
        · cases h
    · rw [readMembers] at h
      split at h
      · split at h
        · cases h
        · split at h
          · split at h
            · cases h
            · rename_i v more hread
              split at h
              · obtain ⟨_, hrest, he⟩ := Option.map_eq_some_iff.mp h
                cases he
                exact List.forall_mem_cons.mpr ⟨hvalue hread, hmembers hrest⟩
              · cases h
                exact List.forall_mem_singleton.mpr (hvalue hread)
              · cases h
          · cases h
      · cases h

lemma parse?_words {text : String} (h : parse? text = some v) : v.Words := by
  rw [parse?] at h
  split at h
  · rename_i hread
    split at h
    · obtain rfl := Option.some.inj h
      exact (read_words _).1 hread
    · cases h
  · cases h

end Words

end Ramify.Json
