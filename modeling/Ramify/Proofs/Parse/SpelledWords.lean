import Ramify.Proofs.Grammar.Names
import Ramify.Proofs.Parse.Uniqueness

namespace Ramify.Grammar

variable (rules : List Rule)

def follow : List String × List NamedSymbol → Deed → Option (List String × List NamedSymbol)
  | (name :: word, stack), .shift => some (word, .term name :: stack)
  | (word, stack), .reduce (i + 1) =>
    match rules[i]? with
    | none => none
    | some r =>
      if (stack.take r.right.length).reverse = r.right then some (word, .nonterm r.left :: stack.drop r.right.length)
      else none
  | _, _ => none

def Spells (word : List String) (deeds : List Deed) (left : String) : Prop :=
  deeds.foldlM (follow rules) (word, []) = some ([], [.nonterm left])

instance (word : List String) (deeds : List Deed) (left : String) : Decidable (Spells rules word deeds left) :=
  inferInstanceAs (Decidable (_ = _))

variable {rules}

lemma follow_reduce {word : List String} {stack : List NamedSymbol} {s : List String × List NamedSymbol} {i : Nat}
    (h : follow rules (word, stack) (.reduce (i + 1)) = some s) : ∃ r, rules[i]? = some r ∧
      (stack.take r.right.length).reverse = r.right ∧ s = (word, .nonterm r.left :: stack.drop r.right.length) := by
  rw [follow] at h
  split at h
  · cases h
  · rename_i r hr
    obtain ⟨hright, h⟩ := Option.ite_none_right_eq_some.mp h
    exact ⟨r, hr, hright, (Option.some.inj h).symm⟩

lemma followAll_invariant {I : List Deed → List String × List NamedSymbol → Prop}
    (hstep : ∀ {before s deed s'}, I before s → follow rules s deed = some s' → I (before ++ [deed]) s')
    (before : List Deed) {deeds : List Deed} {s s' : List String × List NamedSymbol} (hs : I before s)
    (h : deeds.foldlM (follow rules) s = some s') : I (before ++ deeds) s' := by
  induction deeds generalizing s before with
  | nil =>
    obtain rfl := Option.some.inj h
    rwa [List.append_nil]
  | cons deed deeds ih =>
    rw [List.foldlM_cons] at h
    obtain ⟨s₁, hs₁, h⟩ := Option.bind_eq_some_iff.mp h
    rw [List.append_cons]
    exact ih _ (hstep hs hs₁) h

def Met (rules : List Rule) (name : String) (s : List String × List NamedSymbol) : Prop :=
  name ∈ s.1 ∨ .term name ∈ s.2 ∨ ∃ r ∈ rules, .term name ∈ r.right

lemma Met.follow {name : String} {s s' : List String × List NamedSymbol} {deed : Deed} (h : Met rules name s)
    (hs : follow rules s deed = some s') : Met rules name s' := by
  obtain ⟨word, stack⟩ := s
  cases deed with
  | accept => cases word <;> cases hs
  | shift =>
    cases word with
    | nil => cases hs
    | cons first word =>
      obtain rfl := Option.some.inj hs
      rcases h with h | h | h
      · rcases List.mem_cons.mp h with rfl | h
        · exact Or.inr (Or.inl List.mem_cons_self)
        · exact Or.inl h
      · exact Or.inr (Or.inl (List.mem_cons_of_mem _ h))
      · exact Or.inr (Or.inr h)
  | reduce index =>
    cases index with
    | zero => cases word <;> cases hs
    | succ i =>
      obtain ⟨r, hr, hright, rfl⟩ := follow_reduce hs
      rcases h with h | h | h
      · exact Or.inl h
      · rw [← List.take_append_drop r.right.length stack, List.mem_append, ← List.mem_reverse, hright] at h
        rcases h with h | h
        · exact Or.inr (Or.inr ⟨r, List.mem_of_getElem? hr, h⟩)
        · exact Or.inr (Or.inl (List.mem_cons_of_mem _ h))
      · exact Or.inr (Or.inr h)

lemma Spells.exists_rule {word : List String} {deeds : List Deed} {left name : String} (h : Spells rules word deeds left)
    (hname : name ∈ word) : ∃ r ∈ rules, .term name ∈ r.right := by
  have hmet := followAll_invariant (I := fun _ => Met rules name) (fun hs => hs.follow) [] (Or.inl hname) h
  rcases hmet with h | h | h
  · cases h
  · cases List.mem_singleton.mp h
  · exact h

variable {τ : Type} {g : Grammar} {terminal : τ → Option Nat} {name : τ → String} {tokens : List τ}

variable (rules terminal name) in
def Tells : Prop := ∀ token, (∃ r ∈ rules, .term (name token) ∈ r.right) →
  terminal token = some ((terminalNames rules).idxOf (name token))

variable (rules g terminal name tokens) in
def Grown (deeds : List Deed) (s : List String × List NamedSymbol) : Prop :=
  ∃ used rest ts, tokens = used ++ rest ∧ s.1 = rest.map name ∧
    List.Forall₂ (fun x t => ParseTree.Derives terminal g.productions (numberOf rules x) t) s.2 ts ∧
    ParseTree.forestLeaves ts.reverse = used ∧ ParseTree.forestDeeds ts.reverse = deeds

section Rules

variable (hg : ofRules rules = .ok g) (htells : Tells rules terminal name)

include hg htells

lemma Grown.follow (hnames : ∀ token ∈ tokens, ∃ r ∈ rules, .term (name token) ∈ r.right) {deeds : List Deed}
    {deed : Deed} {s s' : List String × List NamedSymbol}
    (h : Grown rules g terminal name tokens deeds s) (hs : follow rules s deed = some s') :
    Grown rules g terminal name tokens (deeds ++ [deed]) s' := by
  obtain ⟨used, rest, ts, htokens, hword, hts, rfl, rfl⟩ := h
  obtain ⟨word, stack⟩ := s
  dsimp only at hword hts
  cases deed with
  | accept => cases word <;> cases hs
  | shift =>
    cases rest with
    | nil =>
      subst hword
      cases hs
    | cons token rest =>
      subst hword
      obtain rfl := Option.some.inj hs
      have hmem : token ∈ tokens := htokens ▸ List.mem_append_right _ List.mem_cons_self
      have hleaf : ParseTree.Derives terminal g.productions (numberOf rules (.term (name token))) (.leaf token) :=
        .leaf (htells token (hnames token hmem))
      refine ⟨_, rest, .leaf token :: ts, ?_, rfl, .cons hleaf hts, rfl, ?_⟩
      · rw [List.reverse_cons, ParseTree.forestLeaves_append, ParseTree.forestLeaves_singleton, ParseTree.leaves,
          List.append_assoc, htokens]
        rfl
      · rw [List.reverse_cons, ParseTree.forestDeeds_append, ParseTree.forestDeeds_singleton, ParseTree.deeds]
  | reduce index =>
    cases index with
    | zero => cases word <;> cases hs
    | succ i =>
      obtain ⟨r, hr, hright, rfl⟩ := follow_reduce hs
      obtain ⟨p, hp, hlhs, hrhs, _⟩ := ofRules_production hg hr
      have hindex := (ofRules_wellNumbered hg).index_eq _ p hp
      have hchildren := List.forall₂_reverse_iff.mpr (List.forall₂_take r.right.length hts)
      rw [hright, ← List.forall₂_map_left_iff, ← hrhs] at hchildren
      have hnode := ParseTree.Derives.node (Array.mem_of_getElem? hp) hchildren
      rw [hlhs] at hnode
      refine ⟨_, rest, _, ?_, hword, .cons hnode (List.forall₂_drop r.right.length hts), rfl, ?_⟩
      · rw [htokens, reverse_split r.right.length ts, ParseTree.forestLeaves_append, List.reverse_cons,
          ParseTree.forestLeaves_append, ParseTree.forestLeaves_singleton, ParseTree.leaves]
      · rw [reverse_split r.right.length ts, ParseTree.forestDeeds_append, List.reverse_cons,
          ParseTree.forestDeeds_append, ParseTree.forestDeeds_singleton, ParseTree.deeds, hindex, List.append_assoc]

section Spells

variable {deeds : List Deed} {left : String} (h : Spells rules (tokens.map name) deeds left)

include h

lemma Spells.exists_tree : ∃ tree : ParseTree τ,
    tree.Derives terminal g.productions (numberOf rules (.nonterm left)) ∧ tree.leaves = tokens ∧ tree.deeds = deeds := by
  have hnames : ∀ token ∈ tokens, ∃ r ∈ rules, .term (name token) ∈ r.right :=
    fun token hmem => h.exists_rule (List.mem_map_of_mem hmem)
  have hstart : Grown rules g terminal name tokens [] (tokens.map name, []) := ⟨[], tokens, [], rfl, rfl, .nil, rfl, rfl⟩
  obtain ⟨used, rest, ts, htokens, hword, hts, hleaves, hdeeds⟩ :=
    followAll_invariant (fun hs => hs.follow hg htells hnames) [] hstart h
  obtain ⟨tree, _, htree, hnil, rfl⟩ := List.forall₂_cons_left_iff.mp hts
  obtain rfl := List.forall₂_nil_left_iff.mp hnil
  obtain rfl := List.map_eq_nil_iff.mp hword.symm
  rw [List.reverse_singleton, ParseTree.forestLeaves_singleton] at hleaves
  rw [List.reverse_singleton, ParseTree.forestDeeds_singleton] at hdeeds
  exact ⟨tree, htree, hleaves.trans (htokens.trans (List.append_nil used)).symm, hdeeds⟩

variable {input : Array τ} {last : τ} (hinput : input.toList = tokens ++ [last])

include hinput

lemma Spells.endsOnce (hlast : terminal last = some g.endTerminal) : EndsOnce terminal g.endTerminal input := by
  have hsize : input.size = tokens.length + 1 := by
    rw [← Array.length_toList, hinput, List.length_append, List.length_singleton]
  refine ⟨hsize ▸ Nat.succ_pos _, fun i token htok => ?_⟩
  rw [← Array.getElem?_toList, hinput] at htok
  rcases Nat.lt_or_ge i tokens.length with hlt | hge
  · rw [List.getElem?_append_left hlt] at htok
    obtain ⟨r, hr, hright⟩ := h.exists_rule (List.mem_map_of_mem (List.mem_of_getElem? htok))
    obtain ⟨j, hj⟩ := List.mem_iff_getElem?.mp hr
    obtain ⟨p, hp, _, hrhs, _⟩ := ofRules_production hg hj
    refine iff_of_false (fun hend => ofRules_end_notMem hg p (Array.mem_of_getElem? hp) ?_) (by omega)
    rw [htells token ⟨r, hr, hright⟩] at hend
    rw [hrhs, ← Option.some.inj hend]
    exact List.mem_map_of_mem hright
  · have hi := (List.getElem?_eq_some_iff.mp htok).1
    rw [List.length_append, List.length_singleton] at hi
    obtain rfl : i = tokens.length := by omega
    rw [List.getElem?_concat_length] at htok
    obtain rfl := Option.some.inj htok
    exact iff_of_true hlast hsize.symm

theorem Spells.exists_parse {first : Rule} (hfirst : rules[0]? = some first) (hleft : left = first.left) :
    ∃ tree : ParseTree τ, tree.IsParse terminal g input ∧ tree.deeds = deeds := by
  obtain ⟨tree, htree, hleaves, hdeeds⟩ := h.exists_tree hg htells
  obtain ⟨p, hp, hlhs, _⟩ := ofRules_production hg hfirst
  refine ⟨tree, ⟨p, hp, ?_, ?_⟩, hdeeds⟩
  · rwa [hlhs, ← hleft]
  · rw [hleaves, hinput, List.dropLast_concat]

end Spells

end Rules

end Ramify.Grammar
