import Ramify.Proofs.Grammar.Lexemes

namespace Ramify.Grammar

section Lines

lemma lines_eq_splitOn (text : List Char) : lines text = text.splitOn '\n' := by
  induction text with
  | nil => rfl
  | cons c text ih =>
    obtain ⟨line, more, hsplit⟩ := List.exists_cons_of_ne_nil (List.splitOn_ne_nil '\n' text)
    rw [List.splitOn_cons_eq_if_modifyHead, hsplit]
    by_cases hc : c = '\n'
    · rw [hc, lines, ih, hsplit, if_pos (beq_self_eq_true _)]
    · rw [lines.eq_3 c text hc, ih, hsplit, if_neg (fun he => hc (eq_of_beq he)), List.modifyHead_cons]

lemma newline_notMem {text line : List Char} (h : line ∈ text.splitOn '\n') : '\n' ∉ line := by
  induction text generalizing line with
  | nil =>
    rw [List.splitOn_nil, List.mem_singleton] at h
    exact h ▸ List.not_mem_nil
  | cons c text ih =>
    rw [List.splitOn_cons_eq_if_modifyHead] at h
    split at h
    · rcases List.mem_cons.mp h with rfl | h
      · exact List.not_mem_nil
      · exact ih h
    · rename_i hc
      obtain ⟨first, more, hsplit⟩ := List.exists_cons_of_ne_nil (List.splitOn_ne_nil '\n' text)
      rw [hsplit] at ih h
      rcases List.mem_cons.mp h with rfl | h
      · rw [List.mem_cons, not_or]
        exact ⟨fun he => hc (beq_iff_eq.mpr he.symm), ih List.mem_cons_self⟩
      · exact ih (List.mem_cons_of_mem _ h)

end Lines

section Rules

def Rule.tokens (r : Rule) : List NotationToken :=
  (r.label.map NotationToken.label).toList ++ .symbol (.nonterm r.left) :: .arrow :: r.right.map .symbol

lemma symbols?_eq_some {tokens : List NotationToken} {right : List NamedSymbol} :
    symbols? tokens = some right ↔ right.map .symbol = tokens := by
  induction tokens generalizing right with
  | nil => simp [symbols?, eq_comm]
  | cons token tokens ih =>
    cases token with
    | symbol s =>
      rw [symbols?, Option.map_eq_some_iff, List.map_eq_cons_iff]
      constructor
      · rintro ⟨more, hmore, rfl⟩
        exact ⟨s, more, rfl, rfl, ih.mp hmore⟩
      · rintro ⟨_, more, rfl, hs, hmore⟩
        exact ⟨more, ih.mpr hmore, by rw [NotationToken.symbol.inj hs]⟩
    | _ => simp [symbols?, List.map_eq_cons_iff]

lemma rule?_tokens {r : Rule} : rule? r.line (Rule.tokens r) = some r := by
  obtain ⟨line, label, left, right⟩ := r
  have hright : symbols? (right.map .symbol) = some right := symbols?_eq_some.mpr rfl
  cases label <;> simp [Rule.tokens, rule?, hright]

lemma rule?_eq_some {line : Nat} {tokens : List NotationToken} {r : Rule} :
    rule? line tokens = some r ↔ r.line = line ∧ Rule.tokens r = tokens := by
  constructor
  · intro h
    rw [rule?.eq_def] at h
    split at h
    all_goals
      first
      | cases h
      | obtain ⟨right, hright, rfl⟩ := Option.map_eq_some_iff.mp h
        exact ⟨rfl, by rw [← symbols?_eq_some.mp hright]; rfl⟩
  · rintro ⟨rfl, rfl⟩
    exact rule?_tokens

end Rules

inductive Reads : Nat → List (List Char) → List Rule → Prop
  | nil {n : Nat} : Reads n [] []
  | blank {n : Nat} {line : List Char} {more : List (List Char)} {rules : List Rule} :
      Lexes line [] → Reads (n + 1) more rules → Reads n (line :: more) rules
  | rule {n : Nat} {line : List Char} {more : List (List Char)} {r : Rule} {rules : List Rule} :
      Lexes line (Rule.tokens r) → r.line = n → Reads (n + 1) more rules → Reads n (line :: more) (r :: rules)

/-- The text is a way of writing the rules. -/
def Written (text : String) (rules : List Rule) : Prop := Reads 1 (text.toList.splitOn '\n') rules

section Reading

lemma mapM_eq_ok {ε α β : Type} {f : α → Except ε β} {l : List α} {l' : List β} :
    l.mapM f = .ok l' ↔ List.Forall₂ (fun a b => f a = .ok b) l l' := by
  induction l generalizing l' with
  | nil => simp [pure, Except.pure, eq_comm]
  | cons a l ih =>
    rw [List.mapM_cons, List.forall₂_cons_left_iff]
    constructor
    · intro h
      obtain ⟨b, hb, h⟩ := ok_of_bind h
      obtain ⟨more, hmore, h⟩ := ok_of_bind h
      cases h
      exact ⟨b, more, hb, ih.mp hmore, rfl⟩
    · rintro ⟨b, more, hb, hmore, rfl⟩
      rw [hb, ih.mpr hmore]
      rfl

lemma error_of_mapM {ε α β : Type} {f : α → Except ε β} {l : List α} {e : ε} (h : l.mapM f = .error e) :
    ∃ a ∈ l, f a = .error e := by
  induction l with
  | nil => cases h
  | cons a l ih =>
    rw [List.mapM_cons] at h
    rcases bind_eq_error.mp h with ha | ⟨b, _, h⟩
    · exact ⟨a, List.mem_cons_self, ha⟩
    rcases bind_eq_error.mp h with hl | ⟨bs, _, h⟩
    · obtain ⟨a', hmem, ha'⟩ := ih hl
      exact ⟨a', List.mem_cons_of_mem _ hmem, ha'⟩
    · cases h

def lexed (x : List Char × Nat) : Except GrammarError (Nat × List NotationToken) :=
  match lineTokens x.1 with
  | .ok tokens => .ok (x.2 + 1, tokens)
  | .error c => .error (.unexpected (x.2 + 1) c)

def formed (x : Nat × List NotationToken) : Except GrammarError Rule :=
  match rule? x.1 x.2 with
  | some r => .ok r
  | none => .error (.malformed x.1)

lemma lexed_eq_ok {line : List Char} {i : Nat} {y : Nat × List NotationToken} (hline : '\n' ∉ line) :
    lexed (line, i) = .ok y ↔ y.1 = i + 1 ∧ Lexes line y.2 := by
  obtain ⟨n, tokens⟩ := y
  rw [lexed, ← lineTokens_eq_ok hline]
  cases lineTokens line with
  | error c => simp
  | ok tokens' => simp [eq_comm]

lemma formed_eq_ok {n : Nat} {tokens : List NotationToken} {r : Rule} :
    formed (n, tokens) = .ok r ↔ r.line = n ∧ Rule.tokens r = tokens := by
  rw [formed, ← rule?_eq_some]
  cases rule? n tokens <;> simp

lemma rules_eq_bind (text : String) : rules text =
    (text.toList.splitOn '\n').zipIdx.mapM lexed >>= fun all => (all.filter fun x => !x.2.isEmpty).mapM formed := by
  rw [← lines_eq_splitOn]
  change (_ >>= fun all => _) >>= _ = _
  rw [bind_assoc]
  rfl

lemma reads_of_rules {ls : List (List Char)} {i : Nat} {all : List (Nat × List NotationToken)} {rs : List Rule}
    (hlines : ∀ line ∈ ls, '\n' ∉ line) (hall : (ls.zipIdx i).mapM lexed = .ok all)
    (hrs : (all.filter fun x => !x.2.isEmpty).mapM formed = .ok rs) : Reads (i + 1) ls rs := by
  induction ls generalizing i all rs with
  | nil =>
    cases hall
    cases hrs
    exact .nil
  | cons line ls ih =>
    rw [List.forall_mem_cons] at hlines
    rw [List.zipIdx_cons, mapM_eq_ok, List.forall₂_cons_left_iff] at hall
    obtain ⟨⟨n, tokens⟩, more, hline, hmore, rfl⟩ := hall
    obtain ⟨hn, hlexes⟩ := (lexed_eq_ok hlines.1).mp hline
    rw [← mapM_eq_ok] at hmore
    cases tokens with
    | nil => exact .blank hlexes (ih hlines.2 hmore hrs)
    | cons token tokens =>
      rw [List.filter_cons_of_pos rfl, mapM_eq_ok, List.forall₂_cons_left_iff] at hrs
      obtain ⟨r, rest, hr, hrest, rfl⟩ := hrs
      obtain ⟨hnumber, htokens⟩ := formed_eq_ok.mp hr
      rw [← htokens] at hlexes
      exact .rule hlexes (hnumber.trans hn) (ih hlines.2 hmore (mapM_eq_ok.mpr hrest))

lemma Rule.tokens_ne_nil (r : Rule) : Rule.tokens r ≠ [] := by
  simp [Rule.tokens]

lemma rules_of_reads {ls : List (List Char)} {i : Nat} {rs : List Rule} (hlines : ∀ line ∈ ls, '\n' ∉ line)
    (h : Reads (i + 1) ls rs) : ∃ all, (ls.zipIdx i).mapM lexed = .ok all ∧
      (all.filter fun x => !x.2.isEmpty).mapM formed = .ok rs := by
  induction ls generalizing i rs with
  | nil =>
    cases h
    exact ⟨[], rfl, rfl⟩
  | cons line ls ih =>
    rw [List.forall_mem_cons] at hlines
    simp only [mapM_eq_ok] at ih ⊢
    rw [List.zipIdx_cons]
    cases h with
    | blank hlexes hmore =>
      obtain ⟨all, hall, hrs⟩ := ih hlines.2 hmore
      exact ⟨(i + 1, []) :: all, .cons ((lexed_eq_ok hlines.1).mpr ⟨rfl, hlexes⟩) hall, hrs⟩
    | @rule _ _ _ r rules hlexes hnumber hmore =>
      obtain ⟨all, hall, hrs⟩ := ih hlines.2 hmore
      refine ⟨(i + 1, Rule.tokens r) :: all, .cons ((lexed_eq_ok hlines.1).mpr ⟨rfl, hlexes⟩) hall, ?_⟩
      rw [List.filter_cons_of_pos (by simp [Rule.tokens_ne_nil r])]
      exact .cons (formed_eq_ok.mpr ⟨hnumber, rfl⟩) hrs

lemma rules_eq_ok {text : String} {rs : List Rule} : rules text = .ok rs ↔ Written text rs := by
  have hlines : ∀ line ∈ text.toList.splitOn '\n', '\n' ∉ line := fun line => newline_notMem
  rw [rules_eq_bind]
  constructor
  · intro h
    obtain ⟨all, hall, hrs⟩ := ok_of_bind h
    exact reads_of_rules hlines hall hrs
  · intro h
    obtain ⟨all, hall, hrs⟩ := rules_of_reads hlines h
    rw [hall]
    exact hrs

end Reading

end Ramify.Grammar
