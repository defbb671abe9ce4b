import Ramify.Proofs.Parse.NodeEnds

/-! To which node an optional part belongs. A production may go on where a shorter one ends, by a
terminal that no other production has; then each tree can be rewritten, with the same root
and leaves, such that this terminal always belongs to the nearest node that can take it. In such
a tree it never follows a node of the shorter production. -/

namespace Ramify

namespace ParseTree

variable {τ : Type}

lemma induction {motive : ParseTree τ → Prop} (leaf : ∀ token, motive (.leaf token))
    (node : ∀ p children, (∀ t ∈ children, motive t) → motive (.node p children)) : ∀ t, motive t
  | .leaf token => leaf token
  | .node p children => node p children fun t _ => induction leaf node t

lemma mem_forestEnds {e : Production × Nat} {start : Nat} {ts : List (ParseTree τ)} (h : e ∈ forestEnds start ts) :
    ∃ before t after, ts = before ++ t :: after ∧ e ∈ t.ends (start + (forestLeaves before).length) := by
  induction ts generalizing start with
  | nil => cases h
  | cons t ts ih =>
    rw [forestEnds, List.mem_append] at h
    rcases h with h | h
    · exact ⟨[], t, ts, rfl, h⟩
    · obtain ⟨before, u, after, rfl, hu⟩ := ih h
      refine ⟨t :: before, u, after, rfl, ?_⟩
      rwa [forestLeaves, List.length_append, ← Nat.add_assoc]

lemma exists_replaced {R : Symbol → ParseTree τ → Prop} {Good : ParseTree τ → Prop} {xs : List Symbol}
    {ts : List (ParseTree τ)} (h : List.Forall₂ R xs ts)
    (hts : ∀ t ∈ ts, ∀ x, R x t → ∃ t', R x t' ∧ t'.leaves = t.leaves ∧ Good t') :
    ∃ ts', List.Forall₂ R xs ts' ∧ forestLeaves ts' = forestLeaves ts ∧ ∀ t ∈ ts', Good t := by
  induction h with
  | nil => exact ⟨[], .nil, rfl, nofun⟩
  | cons hx _ ih =>
    rw [List.forall_mem_cons] at hts
    obtain ⟨t', ht', hleaves, hgood⟩ := hts.1 _ hx
    obtain ⟨ts', hts', hrest, hall⟩ := ih hts.2
    exact ⟨t' :: ts', .cons ht' hts', by rw [forestLeaves, forestLeaves, hleaves, hrest],
      List.forall_mem_cons.mpr ⟨hgood, hall⟩⟩

end ParseTree

namespace Grammar

/-- The production `long` goes on with the terminal `e` where `short` ends, and no other has this
terminal. -/
structure Dangling (g : Grammar) (short long : Production) (e : Nat) (rest : List Symbol) : Prop where
  short_mem : short ∈ g.productions
  long_mem : long ∈ g.productions
  lhs_eq : long.lhs = short.lhs
  rhs_eq : long.rhs = short.rhs ++ .term e :: rest
  short_ne_nil : short.rhs ≠ []
  rhs_ne_nil : ∀ p ∈ g.productions, p.rhs ≠ []
  only : ∀ p ∈ g.productions, ∀ i : Nat, p.rhs[i]? = some (.term e) → p = long ∧ i = short.rhs.length

end Grammar

namespace ParseTree

variable {τ : Type} {g : Grammar} {short long : Production} {e : Nat} {rest : List Symbol} {terminal : τ → Option Nat}

inductive Open (short : Production) : ParseTree τ → Prop
  | here {children : List (ParseTree τ)} : Open short (.node short children)
  | last {p : Production} {before : List (ParseTree τ)} {t : ParseTree τ} : Open short t →
      Open short (.node p (before ++ [t]))

/-- Where the longer production goes on, no node ends that could have gone on itself. -/
inductive Nearest (short long : Production) : ParseTree τ → Prop
  | leaf (token : τ) : Nearest short long (.leaf token)
  | node {p : Production} {children : List (ParseTree τ)} : (∀ t ∈ children, Nearest short long t) →
      (p = long → ∀ t, children[short.rhs.length - 1]? = some t → ¬Open short t) →
      Nearest short long (.node p children)

lemma Nearest.children {p : Production} {children : List (ParseTree τ)} (h : Nearest short long (.node p children)) :
    ∀ t ∈ children, Nearest short long t := by
  cases h with
  | node hchildren _ => exact hchildren

lemma Nearest.not_open {children : List (ParseTree τ)} (h : Nearest short long (.node long children)) {t : ParseTree τ}
    (ht : children[short.rhs.length - 1]? = some t) : ¬Open short t := by
  cases h with
  | node _ hopen => exact hopen rfl t ht

lemma forall₂_concat {R : Symbol → ParseTree τ → Prop} {xs : List Symbol} {before : List (ParseTree τ)} {t : ParseTree τ}
    (h : List.Forall₂ R xs (before ++ [t])) : ∃ ys y, xs = ys ++ [y] ∧ List.Forall₂ R ys before ∧ R y t := by
  have hfront := List.forall₂_take_append xs before [t] h
  have hback := List.forall₂_drop_append xs before [t] h
  obtain ⟨y, _, hy, hnil, hdrop⟩ := List.forall₂_cons_right_iff.mp hback
  obtain rfl := List.forall₂_nil_right_iff.mp hnil
  exact ⟨xs.take before.length, y, by rw [← hdrop, List.take_append_drop], hfront, hy⟩

section Dangling

variable (h : g.Dangling short long e rest)

include h

lemma leaves_ne_nil {x : Symbol} {t : ParseTree τ} (ht : t.Derives terminal g.productions x) : t.leaves ≠ [] := by
  induction t using induction generalizing x with
  | leaf token => exact List.cons_ne_nil _ _
  | node p children ih =>
    cases ht with
    | node hp hc =>
      cases hc' : children with
      | nil =>
        subst hc'
        exact absurd (List.forall₂_nil_right_iff.mp hc) (h.rhs_ne_nil p hp)
      | cons t ts =>
        subst hc'
        obtain ⟨y, ys, hy, _, _⟩ := List.forall₂_cons_right_iff.mp hc
        rw [leaves, forestLeaves, Ne, List.append_eq_nil_iff]
        exact fun hnil => ih t List.mem_cons_self hy hnil.1

lemma term_of_head {x : Symbol} {t : ParseTree τ} (ht : t.Derives terminal g.productions x) {token : τ} {later : List τ}
    (hleaves : t.leaves = token :: later) (htoken : terminal token = some e) : x = .term e := by
  induction t using induction generalizing x later with
  | leaf token' =>
    cases ht with
    | leaf hterm =>
      obtain ⟨rfl, _⟩ := List.cons.inj hleaves
      rw [hterm] at htoken
      rw [Option.some.inj htoken]
  | node p children ih =>
    cases ht with
    | node hp hc =>
      exfalso
      cases hc' : children with
      | nil =>
        rw [hc'] at hleaves
        cases hleaves
      | cons t ts =>
        subst hc'
        obtain ⟨y, ys, hy, _, hrhs⟩ := List.forall₂_cons_right_iff.mp hc
        obtain ⟨token', more, hmore⟩ := List.exists_cons_of_ne_nil (leaves_ne_nil h hy)
        rw [leaves, forestLeaves, hmore, List.cons_append] at hleaves
        obtain ⟨rfl, _⟩ := List.cons.inj hleaves
        obtain rfl := ih t List.mem_cons_self hy hmore
        have hhead : p.rhs[0]? = some (.term e) := by
          rw [hrhs]
          rfl
        exact h.short_ne_nil (List.eq_nil_of_length_eq_zero (h.only p hp 0 hhead).2.symm)

lemma short_length_lt : short.rhs.length < long.rhs.length := by
  rw [h.rhs_eq, List.length_append, List.length_cons]
  omega

lemma exists_attached {tail : List (ParseTree τ)}
    (htail : List.Forall₂ (Derives terminal g.productions) (.term e :: rest) tail)
    (hnear : ∀ t ∈ tail, Nearest short long t) {x : Symbol} {t : ParseTree τ}
    (ht : t.Derives terminal g.productions x) (hn : Nearest short long t) (ho : Open short t) :
    ∃ t', t'.Derives terminal g.productions x ∧ t'.leaves = t.leaves ++ forestLeaves tail ∧ Nearest short long t' := by
  induction t using induction generalizing x with
  | leaf token => cases ho
  | node p children ih =>
    cases ht with
    | node hp hc =>
      by_cases hdeeper : ∃ before t, children = before ++ [t] ∧ Open short t
      · obtain ⟨before, t, rfl, hopen⟩ := hdeeper
        obtain ⟨ys, y, hrhs, hys, hy⟩ := forall₂_concat hc
        have hmem : t ∈ before ++ [t] := List.mem_append_right _ (List.mem_singleton_self t)
        obtain ⟨t', ht', hleaves, hnear'⟩ := ih t hmem hy (hn.children t hmem) hopen
        refine ⟨.node p (before ++ [t']), .node hp ?_, ?_, .node ?_ ?_⟩
        · rw [hrhs]
          exact List.rel_append hys (.cons ht' .nil)
        · rw [leaves, leaves, forestLeaves_append, forestLeaves_append, forestLeaves_singleton,
            forestLeaves_singleton, hleaves, List.append_assoc]
        · rw [List.forall_mem_append]
          exact ⟨fun u hu => hn.children u (List.mem_append_left _ hu),
            fun u hu => List.mem_singleton.mp hu ▸ hnear'⟩
        · -- What the longer production has before it goes on is not the last child.
          rintro rfl u hu
          have hlt : short.rhs.length - 1 < before.length := by
            have hpos := List.length_pos_of_ne_nil h.short_ne_nil
            have hlong := short_length_lt h
            have hcount := hys.length_eq
            rw [hrhs, List.length_append, List.length_singleton] at hlong
            omega
          rw [List.getElem?_append_left hlt] at hu
          refine hn.not_open (t := u) ?_
          rwa [List.getElem?_append_left hlt]
      · have hroot : p = short := by
          cases ho with
          | here => rfl
          | last hopen => exact absurd ⟨_, _, rfl, hopen⟩ hdeeper
        subst hroot
        refine ⟨.node long (children ++ tail), ?_, ?_, .node ?_ ?_⟩
        · rw [← h.lhs_eq]
          refine .node h.long_mem ?_
          rw [h.rhs_eq]
          exact List.rel_append hc htail
        · rw [leaves, leaves, forestLeaves_append]
        · rw [List.forall_mem_append]
          exact ⟨hn.children, hnear⟩
        · rintro - u hu hopen
          have hlt : p.rhs.length - 1 < children.length := by
            have hpos := List.length_pos_of_ne_nil h.short_ne_nil
            have hcount := hc.length_eq
            omega
          rw [List.getElem?_append_left hlt] at hu
          refine hdeeper ⟨children.dropLast, u, ?_, hopen⟩
          rw [hc.length_eq, ← List.getLast?_eq_getElem?] at hu
          exact (List.dropLast_append_getLast? u hu).symm

lemma exists_nearest {x : Symbol} {t : ParseTree τ} (ht : t.Derives terminal g.productions x) :
    ∃ t', t'.Derives terminal g.productions x ∧ t'.leaves = t.leaves ∧ Nearest short long t' := by
  induction t using induction generalizing x with
  | leaf token => exact ⟨_, ht, rfl, .leaf token⟩
  | node p children ih =>
    cases ht with
    | node hp hc =>
      obtain ⟨children', hc', hleaves, hnear⟩ := exists_replaced hc fun t hmem x hx => ih t hmem hx
      by_cases hopen : p = long ∧ ∃ t, children'[short.rhs.length - 1]? = some t ∧ Open short t
      · obtain ⟨rfl, t, ht, hopen⟩ := hopen
        -- The node becomes one of the shorter production, and its end goes to a node within.
        have hpos := List.length_pos_of_ne_nil h.short_ne_nil
        have hfront := List.forall₂_take short.rhs.length hc'
        have htail := List.forall₂_drop short.rhs.length hc'
        rw [h.rhs_eq, List.take_left] at hfront
        rw [h.rhs_eq, List.drop_left] at htail
        have hlen := hfront.length_eq
        obtain ⟨before, hbefore⟩ : ∃ before, children'.take short.rhs.length = before ++ [t] := by
          refine ⟨(children'.take short.rhs.length).dropLast, (List.dropLast_append_getLast? t ?_).symm⟩
          rw [Option.mem_def, List.getLast?_eq_getElem?, ← hlen, List.getElem?_take_of_lt (by omega), ht]
        have hsplit : children' = before ++ [t] ++ children'.drop short.rhs.length := by
          rw [← hbefore, List.take_append_drop]
        rw [hbefore] at hfront
        obtain ⟨ys, y, hrhs, hys, hy⟩ := forall₂_concat hfront
        have hmem : t ∈ children' := List.mem_of_getElem? ht
        obtain ⟨t', ht', hleaves', hnear'⟩ := exists_attached h htail
          (fun u hu => hnear u (List.mem_of_mem_drop hu)) hy (hnear t hmem) hopen
        refine ⟨.node short (before ++ [t']), ?_, ?_, .node ?_ ?_⟩
        · rw [h.lhs_eq]
          refine .node h.short_mem ?_
          rw [hrhs]
          exact List.rel_append hys (.cons ht' .nil)
        · rw [leaves, leaves, ← hleaves, hsplit, forestLeaves_append, forestLeaves_append, forestLeaves_append,
            forestLeaves_singleton, forestLeaves_singleton, hleaves', List.append_assoc]
        · rw [List.forall_mem_append]
          refine ⟨fun u hu => hnear u ?_, fun u hu => List.mem_singleton.mp hu ▸ hnear'⟩
          rw [hsplit]
          exact List.mem_append_left _ (List.mem_append_left _ hu)
        · intro heq
          have hlt := short_length_lt h
          rw [heq] at hlt
          exact absurd hlt (Nat.lt_irrefl _)
      · refine ⟨.node p children', .node hp hc', by rw [leaves, leaves, hleaves], .node hnear ?_⟩
        exact fun heq u hu ho => hopen ⟨heq, u, hu, ho⟩

lemma Nearest.not_followed {x : Symbol} {t : ParseTree τ} (ht : t.Derives terminal g.productions x)
    (hn : Nearest short long t) {start stop : Nat} {word later : List τ} {token : τ}
    (hword : word.drop start = t.leaves ++ later)
    (hlater : Open short t → ∀ token more, later = token :: more → terminal token ≠ some e)
    (hmem : (short, stop) ∈ t.ends start) (htoken : word[stop]? = some token) : terminal token ≠ some e := by
  induction t using induction generalizing x start later with
  | leaf token => cases hmem
  | node p children ih =>
    cases ht with
    | node hp hc =>
      rw [leaves] at hword
      rw [ends, List.mem_cons] at hmem
      rcases hmem with heq | hmem
      · obtain ⟨rfl, rfl⟩ := Prod.mk.inj heq
        rw [← List.head?_drop, ← List.drop_drop, hword, List.drop_left] at htoken
        obtain ⟨more, hmore⟩ := List.head?_eq_some_iff.mp htoken
        exact hlater .here token more hmore
      · obtain ⟨before, t, after, rfl, hend⟩ := mem_forestEnds hmem
        have hfront := List.forall₂_take_append p.rhs before (t :: after) hc
        have hback := List.forall₂_drop_append p.rhs before (t :: after) hc
        obtain ⟨y, ys, hy, hys, hdrop⟩ := List.forall₂_cons_right_iff.mp hback
        rw [forestLeaves_append, forestLeaves] at hword
        have hword' : word.drop (start + (forestLeaves before).length) = t.leaves ++ (forestLeaves after ++ later) := by
          rw [← List.drop_drop, hword, List.append_assoc, List.drop_left, List.append_assoc]
        refine ih t (List.mem_append_right _ List.mem_cons_self) hy
          (hn.children t (List.mem_append_right _ List.mem_cons_self)) hword' ?_ hend
        intro hopen token' more hmore hterm
        cases after with
        | nil => exact hlater (.last hopen) token' more hmore hterm
        | cons u us =>
          -- The next child begins with the terminal, so it is this terminal.
          obtain ⟨z, zs, hz, _, rfl⟩ := List.forall₂_cons_right_iff.mp hys
          obtain ⟨token'', more', hleaves⟩ := List.exists_cons_of_ne_nil (leaves_ne_nil h hz)
          rw [forestLeaves, hleaves, List.cons_append, List.cons_append] at hmore
          obtain ⟨rfl, _⟩ := List.cons.inj hmore
          obtain rfl := term_of_head h hz hleaves hterm
          have hat : p.rhs[before.length + 1]? = some (.term e) := by
            rw [← List.getElem?_drop, hdrop]
            rfl
          obtain ⟨rfl, hlen⟩ := h.only p hp _ hat
          refine hn.not_open (t := t) ?_ hopen
          rw [← hlen, Nat.add_sub_cancel, List.getElem?_append_right le_rfl, Nat.sub_self]
          rfl

end Dangling

end ParseTree

end Ramify
