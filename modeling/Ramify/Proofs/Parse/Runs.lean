import Ramify.Proofs.Parse.Stacks

namespace Ramify

lemma EndsOnce.toList_eq {τ : Type} {terminal : τ → Option Nat} {endMark : Nat} {tokens : Array τ}
    (h : EndsOnce terminal endMark tokens) : ∃ token, terminal token = some endMark ∧
      tokens.toList = tokens.toList.dropLast ++ [token] := by
  have hsize := h.nonempty
  obtain ⟨token, htok⟩ : ∃ token, tokens[tokens.size - 1]? = some token :=
    ⟨_, Array.getElem?_eq_getElem (by omega)⟩
  refine ⟨token, (h.end_iff _ _ htok).mpr (by omega), ?_⟩
  rw [List.dropLast_append_getLast?]
  rw [List.getLast?_eq_getElem?, Array.length_toList, Array.getElem?_toList]
  exact htok

namespace Run

open LR

variable {τ : Type}

structure Configuration (τ : Type) where
  position : Nat
  states : List Nat
  values : List (ParseTree τ)

variable (g : Grammar) (terminal : τ → Option Nat) (tokens : Array τ)

def Expects (s : Nat) (i : Item) (b : Nat) : Prop :=
  (NumberedGrammar.ofGrammar g).Looks (Analysis.kernelSet (NumberedGrammar.ofGrammar g) s) i
    (g.nonterminals.size + b)

/-- The actions of a cell before conflicts are resolved, taken on trees. -/
inductive Steps : Configuration τ → Configuration τ → Prop
  | shift {i s t u : Nat} {states : List Nat} {values : List (ParseTree τ)} {token : τ} :
      tokens[i]? = some token → terminal token = some t → i + 1 < tokens.size →
      .shift u ∈ Construction.allActions g s t →
      Steps ⟨i, s :: states, values⟩ ⟨i + 1, u :: s :: states, .leaf token :: values⟩
  | reduce {i s t u index exposed : Nat} {states : List Nat} {values : List (ParseTree τ)} {token : τ}
      {p : Production} :
      tokens[i]? = some token → terminal token = some t → g.productions[index]? = some p →
      .reduce index ∈ Construction.allActions g s t → (s :: states)[p.rhs.length]? = some exposed →
      p.rhs.length ≤ values.length →
      (NumberedGrammar.ofGrammar g).collection.goto? exposed p.lhs = some u →
      Steps ⟨i, s :: states, values⟩ ⟨i, u :: (s :: states).drop p.rhs.length,
        .node p (values.take p.rhs.length).reverse :: values.drop p.rhs.length⟩

def Ahead (position : Nat) (word : List τ) (b : Nat) : Prop :=
  ∃ token rest, tokens.toList.drop position = word ++ token :: rest ∧ terminal token = some b

def OverTree (symbol : Symbol) (t : ParseTree τ) : Prop :=
  ∀ {position s u b : Nat} (states : List Nat) (values : List (ParseTree τ)),
    g.number symbol < (NumberedGrammar.ofGrammar g).symbolCount →
    (NumberedGrammar.ofGrammar g).collection.goto? s (g.number symbol) = some u →
    (∀ index production, g.productions[index]? = some production → symbol = .nonterm production.lhs →
      Expects g s ⟨index, 0⟩ b) →
    Ahead terminal tokens position t.leaves b →
    Relation.ReflTransGen (Steps g terminal tokens) ⟨position, s :: states, values⟩
      ⟨position + t.leaves.length, u :: s :: states, t :: values⟩

def OverForest (symbols : List Symbol) (ts : List (ParseTree τ)) : Prop :=
  ∀ {position s b r d : Nat} (states : List Nat) (values : List (ParseTree τ)),
    s < (NumberedGrammar.ofGrammar g).collection.size →
    ((NumberedGrammar.ofGrammar g).right r).drop d = symbols.map g.number →
    Expects g s ⟨r, d⟩ b → Ahead terminal tokens position (ParseTree.forestLeaves ts) b →
    ∃ top below, top < (NumberedGrammar.ofGrammar g).collection.size ∧
      (top :: below).drop ts.length = s :: states ∧ Expects g top ⟨r, d + ts.length⟩ b ∧
      Relation.ReflTransGen (Steps g terminal tokens) ⟨position, s :: states, values⟩
        ⟨position + (ParseTree.forestLeaves ts).length, top :: below, ts.reverse ++ values⟩

variable {g terminal tokens}

lemma Steps.position_lt {c c' : Configuration τ} (h : Steps g terminal tokens c c') :
    c'.position < tokens.size := by
  cases h with
  | shift _ _ hlt _ => exact hlt
  | reduce htok _ _ _ _ _ _ => exact (Array.getElem?_eq_some_iff.mp htok).1

section Ahead

variable {position b : Nat} {word u v : List τ}

lemma Ahead.getElem? (h : Ahead terminal tokens position word b) :
    ∃ token, tokens[position + word.length]? = some token ∧ terminal token = some b := by
  obtain ⟨token, rest, hd, ht⟩ := h
  refine ⟨token, ?_, ht⟩
  rw [← Array.getElem?_toList, ← List.getElem?_drop, hd, List.getElem?_append_right le_rfl, Nat.sub_self]
  rfl

lemma Ahead.split (h : Ahead terminal tokens position (u ++ v) b) (hv : ∀ token ∈ v, ∃ n, terminal token = some n) :
    Ahead terminal tokens (position + u.length) v b ∧ ∃ b', Ahead terminal tokens position u b' ∧
      (v = [] ∧ b' = b ∨ ∃ token rest, v = token :: rest ∧ terminal token = some b') := by
  obtain ⟨token, rest, hd, ht⟩ := h
  refine ⟨⟨token, rest, ?_, ht⟩, ?_⟩
  · rw [← List.drop_drop, hd, List.append_assoc, List.drop_left]
  · cases v with
    | nil => exact ⟨b, ⟨token, rest, by rwa [List.append_nil] at hd, ht⟩, Or.inl ⟨rfl, rfl⟩⟩
    | cons token' v =>
      obtain ⟨b', hb'⟩ := hv token' List.mem_cons_self
      exact ⟨b', ⟨token', v ++ token :: rest, by rw [hd, List.append_assoc, List.cons_append], hb'⟩,
        Or.inr ⟨token', v, rfl, hb'⟩⟩

end Ahead

lemma Expects.initial {s r d b b' index : Nat} {x : Symbol} {xs : List Symbol} {ts : List (ParseTree τ)}
    {production : Production} (hl : Expects g s ⟨r, d⟩ b)
    (hright : ((NumberedGrammar.ofGrammar g).right r).drop d = (x :: xs).map g.number)
    (hts : List.Forall₂ (ParseTree.Derives terminal g.productions) xs ts)
    (hp : g.productions[index]? = some production) (hx : x = .nonterm production.lhs)
    (hnext : ParseTree.forestLeaves ts = [] ∧ b' = b ∨
      ∃ token rest, ParseTree.forestLeaves ts = token :: rest ∧ terminal token = some b') :
    Expects g s ⟨index, 0⟩ b' := by
  have hrule := Grammar.rules_getElem? hp
  have hmark : Item.next? (NumberedGrammar.ofGrammar g) ⟨r, d⟩ = some production.lhs := by
    rw [Item.next?, ← List.head?_drop, hright, hx]
    rfl
  have hbeyond : Item.beyond (NumberedGrammar.ofGrammar g) ⟨r, d⟩ = xs.map g.number := by
    rw [Item.beyond, ← List.drop_drop, hright]
    rfl
  have hword := ParseTree.derives_forestLeaves hts
  rcases hnext with ⟨hnil, rfl⟩ | ⟨token, rest, hcons, ht⟩
  · rw [hnil] at hword
    exact .passed hl hrule hmark (hbeyond ▸ hword)
  · rw [hcons, List.map_cons, ParseTree.tokenNumber, ht] at hword
    refine .generated (hl.closure (Analysis.kernelSet_looks_items s)) hrule hmark ⟨Nat.le_add_right _ _, ?_⟩
    exact ⟨_, hbeyond ▸ hword⟩

lemma overTree_leaf {token : τ} {t : Nat} (ht : terminal token = some t) :
    OverTree g terminal tokens (.term t) (.leaf token) := by
  intro position s u b states values _ hg _ hahead
  have hsize := (Array.getElem?_eq_some_iff.mp hahead.getElem?.choose_spec.1).1
  obtain ⟨_, rest, hd, _⟩ := hahead
  have htok : tokens[position]? = some token := by
    rw [← Array.getElem?_toList, ← Nat.add_zero position, ← List.getElem?_drop, hd]
    rfl
  exact .single (.shift htok ht hsize (Construction.shift_mem_allActions.mpr hg))

lemma overTree_node (h : g.WellNumbered) {p : Production} {children : List (ParseTree τ)}
    (hp : p ∈ g.productions) (hne : p.lhs ≠ 0) (hlen : p.rhs.length = children.length)
    (hchildren : OverForest g terminal tokens p.rhs children) :
    OverTree g terminal tokens (.nonterm p.lhs) (.node p children) := by
  intro position s u b states values _ hg hlooks hahead
  have hw := NumberedGrammar.ofGrammar_wellFormed h
  obtain ⟨index, hindex⟩ := Array.mem_iff_getElem?.mp hp
  have hindex0 : index ≠ 0 := by
    rintro rfl
    obtain ⟨start, _, hstart, _, hlhs, _⟩ := h.start
    obtain rfl := Option.some.inj (hindex.symm.trans hstart)
    exact hne hlhs
  have hright := NumberedGrammar.right_eq (Grammar.rules_getElem? hindex)
  rw [ParseTree.leaves] at hahead ⊢
  obtain ⟨top, below, _, hdrop, hl, hrun⟩ := hchildren states values (NumberedGrammar.goto?_lt hw hg)
    (List.drop_zero.trans hright) (hlooks index p hindex rfl) hahead
  obtain ⟨token, htok, ht⟩ := hahead.getElem?
  rw [Nat.zero_add, ← hlen] at hl
  rw [← hlen] at hdrop
  have hreduce : .reduce index ∈ Construction.allActions g top b :=
    (Construction.reduce_mem_allActions hw).mpr ⟨hindex0, by rwa [hright, List.length_map]⟩
  have hstep : Steps g terminal tokens ⟨_, top :: below, children.reverse ++ values⟩ _ := .reduce htok ht hindex hreduce
    (by rw [← List.head?_drop, hdrop]; rfl) (by rw [List.length_append, List.length_reverse]; omega) hg
  have hlen' : p.rhs.length = children.reverse.length := by rw [List.length_reverse, hlen]
  rw [hdrop, hlen', List.take_left, List.drop_left, List.reverse_reverse] at hstep
  exact hrun.tail hstep

lemma overForest_nil : OverForest g terminal tokens [] [] :=
  fun states _ hs _ hl _ => ⟨_, states, hs, rfl, hl, .refl⟩

lemma overForest_cons (h : g.WellNumbered) {x : Symbol} {xs : List Symbol} {t : ParseTree τ}
    {ts : List (ParseTree τ)} (hts : List.Forall₂ (ParseTree.Derives terminal g.productions) xs ts)
    (ht : OverTree g terminal tokens x t) (hrest : OverForest g terminal tokens xs ts) :
    OverForest g terminal tokens (x :: xs) (t :: ts) := by
  intro position s b r d states values hs hright hl hahead
  have hw := NumberedGrammar.ofGrammar_wellFormed h
  have hmark : Item.next? (NumberedGrammar.ofGrammar g) ⟨r, d⟩ = some (g.number x) := by
    rw [Item.next?, ← List.head?_drop, hright]
    rfl
  obtain ⟨u, hu⟩ := NumberedGrammar.goto?_isSome hw hs (NumberedGrammar.looks_mem_closure hw hl) hmark
  have hlu : Expects g u ⟨r, d + 1⟩ b := .base (Analysis.looks_moved hw hl hmark hu)
  have hright' : ((NumberedGrammar.ofGrammar g).right r).drop (d + 1) = xs.map g.number := by
    rw [← List.drop_drop, hright]
    rfl
  rw [ParseTree.forestLeaves] at hahead
  -- The first tree is followed by the next leaf of the others, or by what follows all of them.
  obtain ⟨hahead', b', hb', hnext⟩ := hahead.split (ParseTree.forest_terminal_isSome hts)
  have hfirst := ht states values (NumberedGrammar.right_symbols_lt hw.inRange r _ (List.mem_of_getElem? hmark)) hu
    (fun index production hp hx => hl.initial hright hts hp hx hnext) hb'
  obtain ⟨top, below, htop, hdrop, hlt, hothers⟩ := hrest (s :: states) (t :: values)
    (NumberedGrammar.goto?_kernel hw hu).1 hright' hlu hahead'
  refine ⟨top, below, htop, ?_, by rwa [List.length_cons, Nat.add_comm ts.length, ← Nat.add_assoc], ?_⟩
  · rw [List.length_cons, ← List.drop_drop, hdrop]
    rfl
  · rw [ParseTree.forestLeaves, List.length_append, ← Nat.add_assoc, List.reverse_cons, List.append_assoc]
    exact hfirst.trans hothers

mutual

lemma overTree (h : g.WellNumbered) (hstart : ∀ p ∈ g.productions, Symbol.nonterm 0 ∉ p.rhs) {x : Symbol}
    (hx : x ≠ .nonterm 0) : ∀ {t : ParseTree τ}, t.Derives terminal g.productions x →
      OverTree g terminal tokens x t
  | .leaf token, hd => by
    cases hd with
    | leaf ht => exact overTree_leaf ht
  | .node p children, hd => by
    cases hd with
    | node hp hc =>
      exact overTree_node h hp (fun h0 => hx (congrArg Symbol.nonterm h0)) hc.length_eq
        (overForest h hstart (fun y hy h0 => hstart p hp (h0 ▸ hy)) hc)

lemma overForest (h : g.WellNumbered) (hstart : ∀ p ∈ g.productions, Symbol.nonterm 0 ∉ p.rhs)
    {xs : List Symbol} (hxs : ∀ x ∈ xs, x ≠ .nonterm 0) : ∀ {ts : List (ParseTree τ)},
      List.Forall₂ (ParseTree.Derives terminal g.productions) xs ts → OverForest g terminal tokens xs ts
  | [], hd => by
    cases hd with
    | nil => exact overForest_nil
  | t :: ts, hd => by
    cases hd with
    | cons ht hts =>
      exact overForest_cons h hts (overTree h hstart (hxs _ List.mem_cons_self) ht)
        (overForest h hstart (fun y hy => hxs y (List.mem_cons_of_mem _ hy)) hts)

end

lemma exists_run (h : g.WellNumbered) (hstart : ∀ p ∈ g.productions, Symbol.nonterm 0 ∉ p.rhs)
    {first : Production} {tree : ParseTree τ} {token : τ} (hfirst : g.productions[1]? = some first)
    (ht : tree.Derives terminal g.productions (.nonterm first.lhs)) (htokens : tokens.toList = tree.leaves ++ [token])
    (htoken : terminal token = some g.endTerminal) : ∃ top below,
      Relation.ReflTransGen (Steps g terminal tokens) ⟨0, [0], []⟩ ⟨tree.leaves.length, top :: below, [tree]⟩ ∧
      .accept ∈ Construction.allActions g top g.endTerminal := by
  have hw := NumberedGrammar.ofGrammar_wellFormed h
  obtain ⟨start, first', hstart', hfirst', _, hrhs, hne⟩ := h.start
  obtain rfl := Option.some.inj (hfirst.symm.trans hfirst')
  have hright : (NumberedGrammar.ofGrammar g).right 0 = [Symbol.nonterm first.lhs].map g.number := by
    rw [NumberedGrammar.right_eq (Grammar.rules_getElem? hstart'), hrhs]
  have hlooks : Expects g 0 ⟨0, 0⟩ g.endTerminal := by
    refine .base ((Analysis.mem_kernelSet_looks hw).mpr ?_)
    rw [← h.endSymbol_eq]
    exact (Analysis.kernelLookaheads_propagates hw).start
  have hahead : Ahead terminal tokens 0 (ParseTree.forestLeaves [tree]) g.endTerminal :=
    ⟨token, [], by rwa [ParseTree.forestLeaves_singleton, List.drop_zero], htoken⟩
  have hforest : OverForest g terminal tokens [.nonterm first.lhs] [tree] :=
    overForest h hstart (fun x hx h0 => hne (Symbol.nonterm.inj ((List.mem_singleton.mp hx).symm.trans h0)))
      (.cons ht .nil)
  obtain ⟨top, below, _, _, hl, hrun⟩ := hforest [] [] (NumberedGrammar.kernel_zero hw).1
    (List.drop_zero.trans hright) hlooks hahead
  rw [ParseTree.forestLeaves_singleton, Nat.zero_add] at hrun
  refine ⟨top, below, hrun, (Construction.accept_mem_allActions hw).mpr ⟨h.endSymbol_eq.symm, ?_⟩⟩
  rw [hright, h.endSymbol_eq]
  exact hl

end Run

end Ramify
