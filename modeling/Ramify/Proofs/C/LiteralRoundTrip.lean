import Ramify.Proofs.C.QuotedBodies
import Ramify.Proofs.C.Readings

namespace Ramify

lemma ByteArray.toList_eq (a : ByteArray) : a.toList = a.data.toList := by
  have hloop (n i : Nat) (hn : a.size - i = n) (found : List UInt8) :
      ByteArray.toList.loop a i found = found.reverse ++ a.data.toList.drop i := by
    induction n generalizing i found with
    | zero =>
      rw [ByteArray.toList.loop, if_neg (by omega), List.drop_eq_nil_of_le, List.append_nil]
      rw [Array.length_toList]
      exact Nat.sub_eq_zero_iff_le.mp hn
    | succ n ih =>
      have hi : i < a.size := by omega
      have hget : a.get! i = a.data.toList.get ⟨i, by simpa using hi⟩ := by
        simp [ByteArray.get!, getElem!_pos a.data i hi]
      rw [ByteArray.toList.loop, if_pos hi, ih (i + 1) (by omega), List.reverse_cons, List.append_assoc, hget,
        List.singleton_append]
      exact congrArg (found.reverse ++ ·) (List.drop_eq_getElem_cons _).symm
  exact hloop _ 0 rfl []

lemma Text.Utf8.encode_ofList (chars : List Char) :
    encode (String.ofList chars) = chars.flatMap String.utf8EncodeChar := by
  rw [encode, String.toUTF8_eq_toByteArray, ByteArray.toList_eq, String.toByteArray_ofList, List.utf8Encode,
    List.data_toByteArray]

namespace C

namespace Escape

def octalDigit (n : Nat) : UInt8 := (48 + n).toUInt8

inductive Spells : UInt8 → List UInt8 → Prop
  | plain {b : UInt8} : b ∉ [10, 34, 39, 92] → Spells b [b]
  | letter {b e : UInt8} : letters.lookup e = some b → Spells b [92, e]
  | octal {b : UInt8} {i j k : Nat} : i < 8 → j < 8 → k < 8 → (i * 8 + j) * 8 + k = b.toNat →
      Spells b [92, octalDigit i, octalDigit j, octalDigit k]

def written (b : UInt8) : List UInt8 := (encodeByte b).flatMap String.utf8EncodeChar

lemma encode_eq (bytes : List UInt8) : Text.Utf8.encode (encode bytes) = bytes.flatMap written := by
  rw [encode, Text.Utf8.encode_ofList, List.flatMap_assoc]
  rfl

lemma utf8EncodeChar_ofNat {n : Nat} (h : n < 128) : String.utf8EncodeChar (Char.ofNat n) = [n.toUInt8] := by
  have hval : (Char.ofNat n).val.toNat = n := by
    rw [Char.ofNat, dif_pos (Or.inl (by omega))]
    simp [Char.ofNatAux]
  rw [String.utf8EncodeChar, hval, if_pos (by omega)]

lemma octalDigit_spec {n : Nat} (h : n < 8) : isOctalDigit (octalDigit n) = true ∧ digitValue (octalDigit n) = n ∧
    letters.lookup (octalDigit n) = none ∧ octalDigit n ∉ [10, 34, 39, 92] := by
  interval_cases n <;> decide

lemma octal_eq (b : UInt8) : (octal b).flatMap String.utf8EncodeChar =
    [92, octalDigit (b.toNat / 64 % 8), octalDigit (b.toNat / 8 % 8), octalDigit (b.toNat % 8)] := by
  have hchar (n : Nat) : String.utf8EncodeChar (Char.ofNat (48 + n % 8)) = [octalDigit (n % 8)] :=
    utf8EncodeChar_ofNat (by omega)
  simp [octal, hchar]
  rfl

lemma spells_written (b : UInt8) : Spells b (written b) := by
  by_cases hnewline : b = 10
  · subst hnewline
    exact .letter (e := 110) rfl
  by_cases htab : b = 9
  · subst htab
    exact .letter (e := 116) rfl
  by_cases hreturn : b = 13
  · subst hreturn
    exact .letter (e := 114) rfl
  by_cases hquoted : (b = 92 || b = 39 || b = 34) = true
  · have hcases : b = 92 ∨ b = 39 ∨ b = 34 := by simpa [or_assoc] using hquoted
    rcases hcases with rfl | rfl | rfl
    · exact .letter (e := 92) rfl
    · exact .letter (e := 39) rfl
    · exact .letter (e := 34) rfl
  rw [written, encodeByte, if_neg hnewline, if_neg htab, if_neg hreturn, if_neg hquoted]
  have hlt := b.toNat_lt
  split
  · rename_i hvisible
    have hle : b.toNat ≤ 126 := by
      simp only [Bool.and_eq_true, decide_eq_true_eq, UInt8.le_iff_toNat_le] at hvisible
      exact hvisible.2
    rw [List.flatMap_singleton, utf8EncodeChar_ofNat (by omega), show b.toNat.toUInt8 = b from UInt8.ofNat_toNat]
    exact .plain (by simp_all)
  · rw [octal_eq]
    exact .octal (by omega) (by omega) (by omega) (by omega)

lemma Spells.decode {b : UInt8} {unit : List UInt8} (h : Spells b unit) (rest : List UInt8) :
    decode (unit ++ rest) = (decode rest).map (b :: ·) := by
  cases h with
  | plain hb =>
    have hbackslash : b ≠ 92 := fun h => hb (by simp [h])
    rw [List.singleton_append, Escape.decode, if_neg hbackslash]
  | letter he =>
    rw [List.cons_append, List.cons_append, Escape.decode, if_pos rfl, afterBackslash, he]
    rfl
  | @octal i j k hi hj hk hvalue =>
    obtain ⟨hihigh, hidigit, hiletter, _⟩ := octalDigit_spec hi
    obtain ⟨hjhigh, hjdigit, _⟩ := octalDigit_spec hj
    obtain ⟨hkhigh, hkdigit, _⟩ := octalDigit_spec hk
    have hnumber : valueOf 8 [octalDigit i, octalDigit j, octalDigit k] = b.toNat := by
      simp [valueOf, hidigit, hjdigit, hkdigit, hvalue]
    have hbyte : toByte b.toNat = .ok b := by
      rw [toByte, if_pos b.toNat_lt]
      exact congrArg _ UInt8.ofNat_toNat
    have hafter : afterBackslash ([octalDigit i, octalDigit j, octalDigit k] ++ rest) = .ok (b, 3) := by
      simp only [List.cons_append, List.nil_append, afterBackslash, hiletter, hihigh, if_true, List.take_succ_cons,
        List.take_zero, List.takeWhile_cons, hjhigh, hkhigh, List.takeWhile_nil, hnumber, hbyte]
      rfl
    rw [List.cons_append, Escape.decode, if_pos rfl, hafter]
    rfl

lemma decode_written (bytes : List UInt8) : decode (bytes.flatMap written) = .ok bytes := by
  induction bytes with
  | nil => rw [List.flatMap_nil, decode]
  | cons b bytes ih =>
    rw [List.flatMap_cons, (spells_written b).decode, ih]
    rfl

end Escape

namespace Literal

variable {name : String} {quote : UInt8}

lemma body_spells (hquote : quote = 34 ∨ quote = 39) {b : UInt8} {unit : List UInt8} (h : Escape.Spells b unit) :
    Body quote unit := by
  have hplain {a : UInt8} (ha : a ∉ [10, 34, 39, 92]) : a ∉ [quote, 92, 10] := by
    rcases hquote with rfl | rfl <;> simp_all
  have hdigit {n : Nat} (hn : n < 8) := (Escape.octalDigit_spec hn).2.2.2
  cases h with
  | plain hb => exact .plain (hplain hb) .nil
  | letter he =>
    refine .pair ?_ .nil
    rintro rfl
    cases he
  | octal hi hj hk =>
    refine .pair (fun h => hdigit hi (by simp [h])) ?_
    exact .plain (hplain (hdigit hj)) (.plain (hplain (hdigit hk)) .nil)

lemma body_written (hquote : quote = 34 ∨ quote = 39) (bytes : List UInt8) :
    Body quote (bytes.flatMap Escape.written) := by
  induction bytes with
  | nil => exact .nil
  | cons b bytes ih =>
    rw [List.flatMap_cons]
    exact (body_spells hquote (Escape.spells_written b)).append ih

def quoted (quote : UInt8) (bytes : List UInt8) : List UInt8 :=
  quote :: Text.Utf8.encode (Escape.encode bytes) ++ [quote]

lemma outcome_quoted (hquote : quote = 34 ∨ quote = 39) (bytes : List UInt8) :
    (automaton name quote).outcome (quoted quote bytes) = (.ok .closed, (quoted quote bytes).length) := by
  have hnewline : quote ≠ 10 := by rcases hquote with rfl | rfl <;> decide
  have hbackslash : quote ≠ 92 := by rcases hquote with rfl | rfl <;> decide
  have hpath := (body_written hquote bytes).path_quoted name hnewline hbackslash
  rw [quoted, Escape.encode_eq, List.cons_append]
  exact hpath.outcome rfl

lemma contents_quoted (quote : UInt8) (bytes : List UInt8) (span : Span) :
    contents (quoted quote bytes) span = .ok bytes := by
  rw [contents, quoted, List.cons_append, List.drop_succ_cons, List.drop_zero, List.dropLast_concat,
    Escape.encode_eq, Escape.decode_written]

end Literal

open Literal

lemma tokenize_string (bytes : List UInt8) : ∃ token stop, tokenize (quoted 34 bytes) = .ok [token, .endAt stop] ∧
    token.kind = .string ∧ token.value = some (.bytes bytes) := by
  have hread : readToken (quoted 34 bytes) = (.ok ⟨.string, Text.Utf8.decodeLossy (quoted 34 bytes), {},
      some (.bytes bytes)⟩, (quoted 34 bytes).length) := by
    change stringRecognizer.read (quoted 34 bytes) = _
    have houtcome : stringRecognizer.automaton.outcome (quoted 34 bytes) = _ := outcome_quoted (Or.inl rfl) bytes
    rw [Recognizer.read, houtcome]
    dsimp only [stringRecognizer]
    rw [List.take_length, contents_quoted]
    rfl
  obtain ⟨span, stop, hsource⟩ := tokenize_single rfl hread (fun h => by cases h)
  exact ⟨_, stop, hsource, rfl, rfl⟩

lemma tokenize_char (b : UInt8) : ∃ token stop, tokenize (quoted 39 [b]) = .ok [token, .endAt stop] ∧
    token.kind = .character ∧ token.value = some (.char b) := by
  have hread : readToken (quoted 39 [b]) = (.ok ⟨.character, Text.Utf8.decodeLossy (quoted 39 [b]), {},
      some (.char b)⟩, (quoted 39 [b]).length) := by
    change charRecognizer.read (quoted 39 [b]) = _
    have houtcome : charRecognizer.automaton.outcome (quoted 39 [b]) = _ := outcome_quoted (Or.inr rfl) [b]
    rw [Recognizer.read, houtcome]
    dsimp only [charRecognizer]
    rw [List.take_length, contents_quoted]
    rfl
  obtain ⟨span, stop, hsource⟩ := tokenize_single rfl hread (fun h => by cases h)
  exact ⟨_, stop, hsource, rfl, rfl⟩

lemma TokenClass.read_string {k : TokenClass} {bytes : List UInt8} {token : Token} {n : Nat}
    (h : k.read bytes = (.ok token, n)) (hkind : token.kind = .string) :
    ∃ value, token.value = some (.bytes value) := by
  cases k with
  | word =>
    obtain ⟨s, _, hbuild⟩ := Recognizer.exists_build h
    obtain rfl := Except.ok.inj hbuild
    dsimp only at hkind
    split at hkind <;> cases hkind
  | number =>
    obtain ⟨s, _, hbuild⟩ := Recognizer.exists_build h
    dsimp only [Numeral.recognizer] at hbuild
    split at hbuild
    · obtain rfl := Except.ok.inj hbuild
      dsimp only at hkind
      split at hkind <;> cases hkind
    · cases hbuild
  | string =>
    obtain ⟨s, _, hbuild⟩ := Recognizer.exists_build h
    dsimp only [stringRecognizer] at hbuild
    cases hcontents : contents (bytes.take n) {} with
    | error e => simp [hcontents, bind, Except.bind] at hbuild
    | ok value =>
      rw [hcontents] at hbuild
      obtain rfl := Except.ok.inj hbuild
      exact ⟨value, rfl⟩
  | char =>
    obtain ⟨s, _, hbuild⟩ := Recognizer.exists_build h
    dsimp only [charRecognizer] at hbuild
    rcases hcontents : contents (bytes.take n) {} with _ | _ | ⟨b, _ | _⟩ <;> rw [hcontents] at hbuild <;>
      cases hbuild
    cases hkind
  | punctuator =>
    obtain ⟨s, _, hbuild⟩ := Recognizer.exists_build h
    cases s with
    | kind p =>
      obtain rfl := Except.ok.inj hbuild
      cases hkind
    | start => cases hbuild
    | dotDot => cases hbuild

/-- What the encoder writes is read back: its bytes by the decoder, and its bytes between quotes as the one
token with these bytes as its value. So a string that was accepted can be written anew with the same value. -/
theorem literals_round_trip :
    (∀ bytes, Escape.decode (Text.Utf8.encode (Escape.encode bytes)) = .ok bytes) ∧
    (∀ bytes, ∃ token stop, tokenize (quoted 34 bytes) = .ok [token, .endAt stop] ∧
      token.kind = .string ∧ token.value = some (.bytes bytes)) ∧
    (∀ b, ∃ token stop, tokenize (quoted 39 [b]) = .ok [token, .endAt stop] ∧
      token.kind = .character ∧ token.value = some (.char b)) ∧
    ∀ source tokens, tokenize source = .ok tokens → ∀ token ∈ tokens, token.kind = .string →
      ∃ bytes again stop, token.value = some (.bytes bytes) ∧ tokenize (quoted 34 bytes) = .ok [again, .endAt stop] ∧
        again.kind = .string ∧ again.value = token.value := by
  refine ⟨fun bytes => ?_, tokenize_string, tokenize_char, fun source tokens hsource token hmem hkind => ?_⟩
  · rw [Escape.encode_eq, Escape.decode_written]
  · obtain ⟨-, rfl⟩ := tokenize_eq_ok.mp hsource
    rcases mem_lexFrom hmem with hend | ⟨k, read, n, found, hread, hfound⟩
    · rw [hkind] at hend
      cases hend
    · rw [hfound] at hkind ⊢
      obtain ⟨bytes, hvalue⟩ := TokenClass.read_string hread hkind
      obtain ⟨again, stop, hagain, hstring, hsame⟩ := tokenize_string bytes
      exact ⟨bytes, again, stop, hvalue, hagain, hstring, hsame.trans hvalue.symm⟩

theorem literals_round_trip_octal : ∃ token stop, tokenize [34, 92, 54, 49, 34] = .ok [token, .endAt stop] ∧
    token.kind = .string ∧ token.value = some (.bytes [49]) ∧ quoted 34 [49] = [34, 49, 34] ∧
    ∃ again stop, tokenize (quoted 34 [49]) = .ok [again, .endAt stop] ∧ again.value = token.value := by
  let token : Token := ⟨.string, "\"\\61\"", ⟨⟨1, 1⟩, ⟨1, 6⟩⟩, some (.bytes [49])⟩
  have hsource : tokenize [34, 92, 54, 49, 34] = .ok [token, .endAt ⟨1, 6⟩] := by decide +kernel
  obtain ⟨bytes, again, stop, hvalue, hagain, _, hsame⟩ :=
    literals_round_trip.2.2.2 _ _ hsource token (by simp) rfl
  cases hvalue
  exact ⟨token, _, hsource, rfl, rfl, by rw [quoted, Escape.encode_eq]; rfl, again, stop, hagain, hsame⟩

end C

end Ramify
