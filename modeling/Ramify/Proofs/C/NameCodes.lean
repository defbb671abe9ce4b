import Ramify.Proofs.C.StandardGrammar
import Ramify.Proofs.LR.KeyedSets

/-! Names as numbers. The kernel compares numbers at once, but strings byte by byte; so facts about
all the names in the rules of C are checked for numbers that stand for them. One of these facts is
that the rules make a grammar. -/

namespace Ramify

namespace C

def bytes (s : String) : List UInt8 := s.toByteArray.data.toList

lemma bytes_inj {s t : String} (h : bytes s = bytes t) : s = t :=
  String.toByteArray_inj.mp (ByteArray.ext (Array.toList_inj.mp h))

lemma bytes_ofList (l : List Char) : bytes (String.ofList l) = l.flatMap String.utf8EncodeChar := by
  rw [bytes, String.toByteArray_ofList, List.utf8Encode, List.data_toByteArray]

lemma bytes_append (s t : String) : bytes (s ++ t) = bytes s ++ bytes t := by
  rw [bytes, String.toByteArray_append, ByteArray.data_append, Array.toList_append]
  rfl

lemma utf8EncodeChar_upper {c : Char} {b : UInt8} {bs : List UInt8} (h : String.utf8EncodeChar c = b :: bs)
    (hA : 65 ≤ b.toNat) (hZ : b.toNat ≤ 90) : bs = [] ∧ String.utf8EncodeChar c.toLower = [b + 32] := by
  have hval : c.val.toNat ≤ 127 := by
    by_contra hc
    have hhead := congrArg (fun l => (l.headD 0).toNat) h
    simp only [String.utf8EncodeChar, if_neg hc, List.headD_cons] at hhead
    split_ifs at hhead <;> simp only [List.headD_cons, UInt8.toNat_ofNat'] at hhead <;> omega
  rw [String.utf8EncodeChar, if_pos hval] at h
  obtain ⟨rfl, rfl⟩ := List.cons.inj h
  rw [UInt8.toNat_ofNat'] at hA hZ
  have hlower : c.toLower.val.toNat = c.val.toNat + 32 := by
    have hcond : c.val ≥ 'A'.val ∧ c.val ≤ 'Z'.val := by
      constructor
      · exact UInt32.le_iff_toNat_le.mpr (by change 65 ≤ _; omega)
      · exact UInt32.le_iff_toNat_le.mpr (by change _ ≤ 90; omega)
    rw [Char.toLower, dif_pos hcond]
    change (c.val + 32).toNat = _
    rw [UInt32.toNat_add]
    change (_ + 32) % 4294967296 = _
    omega
  refine ⟨rfl, ?_⟩
  rw [String.utf8EncodeChar, hlower, if_pos (by omega)]
  refine congrArg (· :: []) (UInt8.toNat.inj ?_)
  rw [UInt8.toNat_add, UInt8.toNat_ofNat', UInt8.toNat_ofNat']
  change _ = (_ + 32) % 256
  omega

lemma bytes_decapitalize {s : String} {b : UInt8} {bs : List UInt8} (h : bytes s = b :: bs) (hA : 65 ≤ b.toNat)
    (hZ : b.toNat ≤ 90) : bytes s.decapitalize = (b + 32) :: bs := by
  obtain ⟨l, rfl⟩ : ∃ l, s = String.ofList l := ⟨s.toList, String.ofList_toList.symm⟩
  cases l with
  | nil => cases h
  | cons c l =>
    rw [bytes_ofList, List.flatMap_cons] at h
    rw [Grammar.decapitalize_ofList, bytes_ofList, List.flatMap_cons]
    obtain ⟨d, ds, hc⟩ := List.exists_cons_of_ne_nil (String.utf8EncodeChar_ne_nil (c := c))
    rw [hc, List.cons_append] at h
    obtain ⟨rfl, rfl⟩ := List.cons.inj h
    obtain ⟨rfl, hlower⟩ := utf8EncodeChar_upper hc hA hZ
    rw [hlower]
    rfl

def digits (bs : List UInt8) : Nat := bs.foldl (fun n b => n * 257 + (b.toNat + 1)) 0

lemma digits_concat (bs : List UInt8) (b : UInt8) : digits (bs ++ [b]) = digits bs * 257 + (b.toNat + 1) := by
  rw [digits, List.foldl_append]
  rfl

lemma digits_inj {bs cs : List UInt8} (h : digits bs = digits cs) : bs = cs := by
  induction bs using List.reverseRecOn generalizing cs with
  | nil =>
    cases cs using List.reverseRecOn with
    | nil => rfl
    | append_singleton cs c =>
      rw [digits_concat] at h
      exact absurd h (Nat.succ_ne_zero _).symm
  | append_singleton bs b ih =>
    cases cs using List.reverseRecOn with
    | nil =>
      rw [digits_concat] at h
      exact absurd h (Nat.succ_ne_zero _)
    | append_singleton cs c =>
      rw [digits_concat, digits_concat] at h
      have hb := b.toNat_lt
      have hc := c.toNat_lt
      have hlast : b.toNat = c.toNat := by omega
      have hinit : digits bs = digits cs := by omega
      rw [ih hinit, UInt8.toNat.inj hlast]

def nameCode (name : String) : Nat := digits (bytes name)

lemma nameCode_inj {s t : String} (h : nameCode s = nameCode t) : s = t := bytes_inj (digits_inj h)

lemma count_nameCode (names : List String) (name : String) :
    (names.map nameCode).count (nameCode name) = names.count name :=
  List.count_map_of_injective names nameCode (fun _ _ => nameCode_inj) name

def lowered : List UInt8 → List UInt8
  | [] => []
  | b :: bs => (b + 32) :: bs

namespace Rules

def labelCodes (earlier : List Nat) : List Rule → List Nat
  | [] => []
  | r :: rules =>
    (match r.label with
      | some label => nameCode label
      | none => digits (lowered (bytes r.left) ++ bytes (toString (Bits.occurrences (nameCode r.left) earlier + 1)))) ::
      labelCodes (nameCode r.left :: earlier) rules

lemma labelCodes_eq (earlier : List Rule) {rules : List Rule}
    (h : ∀ r ∈ rules, ∃ b bs, bytes r.left = b :: bs ∧ 65 ≤ b.toNat ∧ b.toNat ≤ 90) :
    labelCodes (earlier.map fun r => nameCode r.left) rules = (Grammar.labelsAfter earlier rules).map nameCode := by
  induction rules generalizing earlier with
  | nil => rfl
  | cons r rules ih =>
    rw [List.forall_mem_cons] at h
    obtain ⟨⟨b, bs, hbytes, hA, hZ⟩, hrules⟩ := h
    have hcount : Bits.occurrences (nameCode r.left) (earlier.map fun r => nameCode r.left) =
        Grammar.countLeft r.left earlier := by
      have hmap := count_nameCode (earlier.map Rule.left) r.left
      rw [List.map_map] at hmap
      refine (Bits.occurrences_eq _ _).trans (hmap.trans ?_)
      rw [List.count, List.countP_map]
      rfl
    rw [labelCodes, Grammar.labelsAfter, List.map_cons]
    refine congrArg₂ _ ?_ (ih (r :: earlier) hrules)
    cases r.label with
    | some label => rfl
    | none =>
      dsimp only [Option.getD_none]
      rw [hcount, hbytes, nameCode, Grammar.defaultLabel, bytes_append, bytes_decapitalize hbytes hA hZ]
      rfl

def rightCodes (r : Rule) : List Nat :=
  r.right.filterMap fun
    | .nonterm n => some (nameCode n)
    | .term _ => none

lemma admitted : rules ≠ [] ∧
    (∀ r ∈ rules, 65 ≤ ((bytes r.left).headD 0).toNat ∧ ((bytes r.left).headD 0).toNat ≤ 90) ∧
    Bits.unrepeated (nameCode Grammar.startLabel :: labelCodes [] rules) = true ∧
    (rules.flatMap rightCodes).all (Bits.listed · (rules.map fun r => nameCode r.left)) = true := by
  decide +kernel

end Rules

open Rules in
lemma exists_grammar : ∃ g, grammar = .ok g := by
  obtain ⟨hne, hletter, hunrepeated, hleft⟩ := admitted
  have hupper : ∀ r ∈ rules, ∃ b bs, bytes r.left = b :: bs ∧ 65 ≤ b.toNat ∧ b.toNat ≤ 90 := by
    intro r hr
    obtain ⟨hA, hZ⟩ := hletter r hr
    cases hb : bytes r.left with
    | nil =>
      rw [hb] at hA
      cases hA
    | cons b bs =>
      rw [hb] at hA hZ
      exact ⟨b, bs, rfl, hA, hZ⟩
  refine Grammar.ofRules_ok hne (fun r hr => ⟨(sides r hr).2.2.1, (sides r hr).1⟩) ?_ ?_
  · intro r hr n hn _
    have hmem : nameCode n ∈ rules.flatMap rightCodes :=
      List.mem_flatMap.mpr ⟨r, hr, List.mem_filterMap.mpr ⟨_, hn, rfl⟩⟩
    obtain ⟨r', hr', he⟩ := List.mem_map.mp (Bits.listed_iff.mp (List.all_eq_true.mp hleft _ hmem))
    exact nameCode_inj he ▸ List.mem_map_of_mem hr'
  · have hnodup := Bits.nodup_of_unrepeated hunrepeated
    have hcodes : labelCodes [] rules = (Grammar.labelsAfter [] rules).map nameCode := labelCodes_eq [] hupper
    rw [hcodes, ← List.map_cons] at hnodup
    exact hnodup.of_map _

lemma exists_vocabulary : ∃ V g, standard = some V ∧ V.Standard g := by
  obtain ⟨g, hg⟩ := exists_grammar
  obtain ⟨V, hV⟩ := exists_standard hg
  exact ⟨V, g, hV⟩

end C

end Ramify
