import Ramify.Proofs.Grammar.Numbering

namespace Ramify.Grammar

abbrev beginsTerminal (c : Char) : Bool := c.isLower || c == '_'

/-- The texts of the notation, and the token that each stands for, if any. -/
inductive Lexeme : List Char → Option NotationToken → Prop
  | gap {run : List Char} : run ≠ [] → (∀ c ∈ run, isGap c = true) → Lexeme run none
  | comment {body : List Char} : '\n' ∉ body → Lexeme ('-' :: '-' :: body) none
  | arrow : Lexeme ['-', '>'] (some .arrow)
  | label {c : Char} {run : List Char} : beginsTerminal c = true → (∀ d ∈ run, isWordChar d = true) →
      Lexeme (c :: (run ++ [':'])) (some (.label (String.ofList (c :: run))))
  | terminal {c : Char} {run : List Char} : beginsTerminal c = true → (∀ d ∈ run, isWordChar d = true) →
      Lexeme (c :: run) (some (.symbol (.term (String.ofList (c :: run)))))
  | nonterminal {c : Char} {run : List Char} : c.isUpper = true → (∀ d ∈ run, isWordChar d = true) →
      Lexeme (c :: run) (some (.symbol (.nonterm (String.ofList (c :: run)))))
  | mark {c : Char} {name : String} : markName? c = some name → Lexeme [c] (some (.symbol (.term name)))

structure Longest (text w : List Char) (token : Option NotationToken) : Prop where
  lexeme : Lexeme w token
  begins : w <+: text
  longest : ∀ v u, Lexeme v u → v <+: text → v.length ≤ w.length

inductive Lexes : List Char → List NotationToken → Prop
  | nil : Lexes [] []
  | cons {w rest : List Char} {token : Option NotationToken} {tokens : List NotationToken} :
      Longest (w ++ rest) w token → Lexes rest tokens → Lexes (w ++ rest) (token.toList ++ tokens)

section Characters

variable {c : Char} {name : String}

lemma mark_not_word (h : markName? c = some name) :
    isGap c = false ∧ c.isLower = false ∧ c ≠ '_' ∧ c.isUpper = false := by
  have hmem : (c, name) ∈ markNames := by
    obtain ⟨l₁, l₂, hl, _⟩ := List.lookup_eq_some_iff.mp h
    exact hl ▸ List.mem_append_right _ List.mem_cons_self
  have hall : ∀ e ∈ markNames, isGap e.1 = false ∧ e.1.isLower = false ∧ e.1 ≠ '_' ∧ e.1.isUpper = false := by
    decide +kernel
  exact hall _ hmem

lemma gap_cases (h : isGap c = true) : c = ' ' ∨ c = '\t' ∨ c = '\x0c' ∨ c = '\r' := by
  simpa [isGap, or_assoc] using h

lemma terminal_not_gap (h : beginsTerminal c = true) : isGap c = false := by
  by_contra hgap
  rw [Bool.not_eq_false] at hgap
  rcases gap_cases hgap with rfl | rfl | rfl | rfl <;> cases h

lemma upper_not_gap (h : c.isUpper = true) : isGap c = false ∧ beginsTerminal c = false := by
  constructor
  · by_contra hgap
    rw [Bool.not_eq_false] at hgap
    rcases gap_cases hgap with rfl | rfl | rfl | rfl <;> cases h
  · have hne : c ≠ '_' := by
      rintro rfl
      cases h
    have hlower : c.isLower = false := by
      simp [Char.isUpper, Char.isLower, UInt32.le_iff_toNat_le] at h ⊢
      omega
    rw [beginsTerminal, hlower, Bool.false_or, beq_eq_false_iff_ne]
    exact hne

end Characters

section Steps

variable {c : Char} {rest run : List Char} {name : String}

lemma takeWhile_word (hrun : ∀ d ∈ run, isWordChar d = true) (hrest : ∀ d ∈ rest.head?, isWordChar d = false) :
    (run ++ rest).takeWhile isWordChar = run := by
  rw [List.takeWhile_append_of_pos hrun]
  cases rest with
  | nil => simp
  | cons d rest => simp [hrest d rfl]

lemma lineTokens_marks (rest : List Char) : lineTokens [] = .ok [] ∧ lineTokens ('-' :: '-' :: rest) = .ok [] ∧
    lineTokens ('-' :: '>' :: rest) = (lineTokens rest).map (.arrow :: ·) := by
  refine ⟨?_, ?_, ?_⟩ <;> rw [lineTokens]

lemma lineTokens_cons (hdash : c = '-' → ∀ d ∈ rest.head?, d ≠ '-' ∧ d ≠ '>') : lineTokens (c :: rest) =
    if isGap c then lineTokens rest
    else if beginsTerminal c then
      let run := rest.takeWhile isWordChar
      if rest[run.length]? = some ':' then
        (lineTokens (rest.drop (run.length + 1))).map (.label (String.ofList (c :: run)) :: ·)
      else (lineTokens (rest.drop run.length)).map (.symbol (.term (String.ofList (c :: run))) :: ·)
    else if c.isUpper then
      let run := rest.takeWhile isWordChar
      (lineTokens (rest.drop run.length)).map (.symbol (.nonterm (String.ofList (c :: run))) :: ·)
    else
      match markName? c with
      | some name => (lineTokens rest).map (.symbol (.term name) :: ·)
      | none => .error c := by
  refine lineTokens.eq_4 c rest ?_ ?_
  · rintro _ hc rfl
    exact (hdash hc _ rfl).1 rfl
  · rintro _ hc rfl
    exact (hdash hc _ rfl).2 rfl

lemma lineTokens_gap (h : isGap c = true) : lineTokens (c :: rest) = lineTokens rest := by
  rw [lineTokens_cons, if_pos h]
  rintro rfl
  cases h

lemma lineTokens_gaps (h : ∀ c ∈ run, isGap c = true) : lineTokens (run ++ rest) = lineTokens rest := by
  induction run with
  | nil => rfl
  | cons c run ih =>
    rw [List.forall_mem_cons] at h
    rw [List.cons_append, lineTokens_gap h.1, ih h.2]

lemma lineTokens_lower (h : beginsTerminal c = true) (hrun : ∀ d ∈ run, isWordChar d = true)
    (hrest : ∀ d ∈ rest.head?, isWordChar d = false) : lineTokens (c :: (run ++ rest)) =
      if rest.head? = some ':' then (lineTokens rest.tail).map (.label (String.ofList (c :: run)) :: ·)
      else (lineTokens rest).map (.symbol (.term (String.ofList (c :: run))) :: ·) := by
  rw [lineTokens_cons, if_neg (Bool.eq_false_iff.mp (terminal_not_gap h)), if_pos h]
  · dsimp only
    rw [takeWhile_word hrun hrest, List.getElem?_append_right le_rfl, Nat.sub_self, ← List.head?_eq_getElem?,
      List.drop_left, ← List.drop_drop, List.drop_left, List.drop_one]
  · rintro rfl
    cases h

lemma lineTokens_upper (h : c.isUpper = true) (hrun : ∀ d ∈ run, isWordChar d = true)
    (hrest : ∀ d ∈ rest.head?, isWordChar d = false) : lineTokens (c :: (run ++ rest)) =
      (lineTokens rest).map (.symbol (.nonterm (String.ofList (c :: run))) :: ·) := by
  obtain ⟨hgap, hlower⟩ := upper_not_gap h
  rw [lineTokens_cons, if_neg (Bool.eq_false_iff.mp hgap), if_neg (Bool.eq_false_iff.mp hlower), if_pos h]
  · dsimp only
    rw [takeWhile_word hrun hrest, List.drop_left]
  · rintro rfl
    cases h

lemma lineTokens_mark (h : markName? c = some name) (hrest : c = '-' → ∀ d ∈ rest.head?, d ≠ '-' ∧ d ≠ '>') :
    lineTokens (c :: rest) = (lineTokens rest).map (.symbol (.term name) :: ·) := by
  obtain ⟨hgap, hlower, hunder, hupper⟩ := mark_not_word h
  have hword : beginsTerminal c = false := by
    rw [beginsTerminal, hlower, Bool.false_or, beq_eq_false_iff_ne]
    exact hunder
  rw [lineTokens_cons hrest, if_neg (Bool.eq_false_iff.mp hgap), if_neg (Bool.eq_false_iff.mp hword),
    if_neg (Bool.eq_false_iff.mp hupper), h]

end Steps

section Longest

variable {text w rest : List Char} {token : Option NotationToken}

lemma Lexeme.ne_nil (h : Lexeme w token) : w ≠ [] := by
  cases h with
  | gap hne => exact hne
  | _ => exact List.cons_ne_nil _ _

lemma Longest.not_lexeme (h : Longest (w ++ rest) w token) {v : List Char} (hv : v ≠ []) {behind : List Char}
    (hrest : rest = v ++ behind) (u : Option NotationToken) : ¬ Lexeme (w ++ v) u := by
  intro hlexeme
  have hle := h.longest _ u hlexeme ⟨behind, by rw [hrest, List.append_assoc]⟩
  rw [List.length_append] at hle
  have hpos := List.length_pos_of_ne_nil hv
  omega

lemma Longest.not_word {c : Char} {run : List Char} (hrun : ∀ d ∈ run, isWordChar d = true)
    (h : Longest (c :: (run ++ rest)) (c :: run) token)
    (hlexeme : ∀ run', (∀ d ∈ run', isWordChar d = true) → ∃ u, Lexeme (c :: run') u) :
    ∀ d ∈ rest.head?, isWordChar d = false := by
  intro d hd
  obtain ⟨behind, rfl⟩ := List.head?_eq_some_iff.mp hd
  by_contra hword
  rw [Bool.not_eq_false] at hword
  obtain ⟨u, hu⟩ := hlexeme (run ++ [d]) (List.forall_mem_append.mpr ⟨hrun, List.forall_mem_singleton.mpr hword⟩)
  exact Longest.not_lexeme (w := c :: run) h (List.cons_ne_nil d []) rfl u hu

lemma lineTokens_longest (hline : '\n' ∉ w ++ rest) (h : Longest (w ++ rest) w token) :
    lineTokens (w ++ rest) = (lineTokens rest).map (token.toList ++ ·) := by
  cases h.lexeme with
  | gap hne hgap =>
    rw [lineTokens_gaps hgap]
    cases lineTokens rest <;> rfl
  | @comment body hbody =>
    have hrest : rest = [] := by
      by_contra hne
      refine h.not_lexeme hne (List.append_nil rest).symm none (.comment fun hmem => hline ?_)
      exact List.mem_cons_of_mem _ (List.mem_cons_of_mem _ hmem)
    rw [hrest, List.cons_append, List.cons_append, (lineTokens_marks _).2.1, (lineTokens_marks []).1]
    rfl
  | arrow =>
    rw [List.cons_append, List.cons_append, (lineTokens_marks _).2.2]
    rfl
  | @label c run hc hrun =>
    have hcolon : ∀ d ∈ (':' :: rest).head?, isWordChar d = false := by
      rintro _ ⟨⟩
      rfl
    rw [List.cons_append, List.append_assoc, List.cons_append, List.nil_append, lineTokens_lower hc hrun hcolon,
      if_pos (List.head?_cons)]
    rfl
  | @terminal c run hc hrun =>
    have hstop := h.not_word hrun fun run' hrun' => ⟨_, .terminal hc hrun'⟩
    have hcolon : rest.head? ≠ some ':' := by
      intro hcolon
      obtain ⟨behind, rfl⟩ := List.head?_eq_some_iff.mp hcolon
      exact h.not_lexeme (List.cons_ne_nil ':' []) rfl _ (.label hc hrun)
    rw [List.cons_append, lineTokens_lower hc hrun hstop, if_neg hcolon]
    rfl
  | @nonterminal c run hc hrun =>
    have hstop := h.not_word hrun fun run' hrun' => ⟨_, .nonterminal hc hrun'⟩
    rw [List.cons_append, lineTokens_upper hc hrun hstop]
    rfl
  | @mark c name hname =>
    have hdash : c = '-' → ∀ d ∈ rest.head?, d ≠ '-' ∧ d ≠ '>' := by
      rintro rfl d hd
      obtain ⟨behind, rfl⟩ := List.head?_eq_some_iff.mp hd
      constructor
      · rintro rfl
        exact h.not_lexeme (List.cons_ne_nil '-' []) rfl none (.comment List.not_mem_nil)
      · rintro rfl
        exact h.not_lexeme (List.cons_ne_nil '>' []) rfl _ .arrow
    exact lineTokens_mark hname hdash

lemma lineTokens_error {c : Char} (h : ∀ token, ¬ Lexeme [c] token) : lineTokens (c :: rest) = .error c := by
  rw [lineTokens_cons, if_neg fun hgap => h _ (.gap (List.cons_ne_nil c []) (List.forall_mem_singleton.mpr hgap)),
    if_neg fun hlower => h _ (.terminal hlower (List.forall_mem_nil _)),
    if_neg fun hupper => h _ (.nonterminal hupper (List.forall_mem_nil _))]
  · cases hname : markName? c with
    | none => rfl
    | some name => exact absurd (.mark hname) (h _)
  · rintro rfl
    exact absurd (.mark rfl) (h _)

lemma exists_longest {v : List Char} {u : Option NotationToken} (hv : Lexeme v u) (hbegins : v <+: text) :
    ∃ w token, Longest text w token := by
  let fronts : Set (List Char) := {v | v <+: text ∧ ∃ u, Lexeme v u}
  have hfinite : fronts.Finite :=
    (List.finite_toSet text.inits).subset fun v hv => (List.mem_inits v text).mpr hv.1
  obtain ⟨w, ⟨hw, token, hlexeme⟩, hmax⟩ := Set.exists_max_image fronts List.length hfinite ⟨v, hbegins, u, hv⟩
  exact ⟨w, token, hlexeme, hw, fun v u hv hbegins => hmax v ⟨hbegins, u, hv⟩⟩

lemma lineTokens_of_lexes {tokens : List NotationToken} (hline : '\n' ∉ text) (h : Lexes text tokens) :
    lineTokens text = .ok tokens := by
  induction h with
  | nil => exact (lineTokens_marks []).1
  | cons hlongest _ ih =>
    rw [lineTokens_longest hline hlongest, ih fun hmem => hline (List.mem_append_right _ hmem)]
    rfl

lemma lexes_of_lineTokens {tokens : List NotationToken} (hline : '\n' ∉ text) (h : lineTokens text = .ok tokens) :
    Lexes text tokens := by
  induction hlength : text.length using Nat.strong_induction_on generalizing text tokens with
  | _ n ih =>
    cases text with
    | nil =>
      rw [(lineTokens_marks []).1] at h
      exact Except.ok.inj h ▸ .nil
    | cons c behind =>
      -- It is enough to look for a lexeme of one character, since what begins a longer one is a lexeme itself.
      by_cases hfront : ∃ token, Lexeme [c] token
      · obtain ⟨token, hlexeme⟩ := hfront
        obtain ⟨w, token, hlongest⟩ := exists_longest hlexeme (List.prefix_append [c] behind)
        rw [List.singleton_append] at hlongest
        obtain ⟨rest, hrest⟩ := hlongest.begins
        rw [← hrest] at hline hlongest h hlength ⊢
        rw [lineTokens_longest hline hlongest] at h
        obtain ⟨more, hmore, rfl⟩ := map_eq_ok h
        have hpos := List.length_pos_of_ne_nil hlongest.lexeme.ne_nil
        rw [List.length_append] at hlength
        exact .cons hlongest (ih rest.length (by omega) (fun hmem => hline (List.mem_append_right _ hmem)) hmore rfl)
      · rw [lineTokens_error (not_exists.mp hfront)] at h
        cases h

lemma lineTokens_eq_ok {tokens : List NotationToken} (hline : '\n' ∉ text) :
    lineTokens text = .ok tokens ↔ Lexes text tokens :=
  ⟨lexes_of_lineTokens hline, lineTokens_of_lexes hline⟩

end Longest

end Ramify.Grammar
