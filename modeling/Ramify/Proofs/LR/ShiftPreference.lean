import Ramify.Proofs.Grammar.Names
import Ramify.Proofs.LR.Cells
import Ramify.Proofs.LR.ViablePrefix

namespace Ramify.LR

namespace NumberedGrammar

variable {G : NumberedGrammar} {s : Nat}

lemma mem_kernel (hw : G.WellFormed) {i : Item} (hi : i ∈ G.collection.kernel s) :
    i = ⟨0, 0⟩ ∨ ∃ s' j x, j ∈ G.closure (G.collection.kernel s') ∧ j.next? G = some x ∧
      G.collection.goto? s' x = some s ∧ i = j.advance := by
  obtain ⟨g, hg⟩ := exists_follow hw (lt_size_of_mem_kernel hi)
  cases g using List.reverseRec with
  | nil =>
    obtain rfl : 0 = s := Option.some.inj hg
    rw [(kernel_zero hw).2, List.mem_singleton] at hi
    exact Or.inl hi
  | append_singleton g x =>
    rw [Collection.follow_concat] at hg
    obtain ⟨s', _, hgoto⟩ := Option.bind_eq_some_iff.mp hg
    rw [(goto?_kernel hw hgoto).2] at hi
    obtain ⟨j, hj, hn, rfl⟩ := mem_movedOver.mp hi
    exact Or.inr ⟨s', j, x, hj, hn, hgoto, rfl⟩

lemma exists_below (hw : G.WellFormed) {r d : Nat} (hi : ⟨r, d + 1⟩ ∈ G.closure (G.collection.kernel s)) :
    ∃ s' x, G.collection.goto? s' x = some s ∧ (G.right r)[d]? = some x ∧ ∀ r' d',
      ⟨r', d' + 1⟩ ∈ G.closure (G.collection.kernel s) → ⟨r', d'⟩ ∈ G.closure (G.collection.kernel s') := by
  have hkernel : ∀ r d, ⟨r, d + 1⟩ ∈ G.closure (G.collection.kernel s) → ⟨r, d + 1⟩ ∈ G.collection.kernel s :=
    fun r d hi => ((mem_closure hw).mp hi).mem_of_dot (Nat.succ_ne_zero d)
  rcases mem_kernel hw (hkernel r d hi) with he | ⟨s', ⟨r', d'⟩, x, _, hn, hgoto, he⟩
  · cases he
  · obtain ⟨rfl, hd⟩ := Item.mk.inj he
    obtain rfl : d = d' := Nat.succ.inj hd
    refine ⟨s', x, hgoto, hn, fun r' d' hi' => ?_⟩
    have hk := hkernel r' d' hi'
    rw [(goto?_kernel hw hgoto).2] at hk
    obtain ⟨⟨r'', d''⟩, hj, _, he⟩ := mem_movedOver.mp hk
    obtain ⟨rfl, hd⟩ := Item.mk.inj he
    obtain rfl : d'' = d' := Nat.succ.inj hd
    exact hj

lemma longer_mem_closure (hw : G.WellFormed) {p q d : Nat} {short long : NumberedRule} {rest : List Nat}
    (hp : G.rules[p]? = some short) (hq : G.rules[q]? = some long) (hleft : long.left = short.left)
    (hright : long.right = short.right ++ rest) (h0 : p ≠ 0)
    (hi : ⟨p, d⟩ ∈ G.closure (G.collection.kernel s)) : ⟨q, d⟩ ∈ G.closure (G.collection.kernel s) := by
  induction d generalizing s with
  | zero =>
    cases (mem_closure hw).mp hi with
    | base hk =>
      rcases mem_kernel hw hk with he | ⟨_, j, _, _, _, _, he⟩
      · exact absurd (congrArg Item.rule he) h0
      · exact absurd (congrArg Item.dot he) (Nat.succ_ne_zero j.dot).symm
    | initial hj hr hn =>
      obtain rfl := Option.some.inj (hp.symm.trans hr)
      exact (mem_closure hw).mpr (.initial hj hq (hleft ▸ hn))
  | succ d ih =>
    have hk : ⟨p, d + 1⟩ ∈ G.collection.kernel s := ((mem_closure hw).mp hi).mem_of_dot (Nat.succ_ne_zero d)
    rcases mem_kernel hw hk with he | ⟨s', ⟨r, d'⟩, x, hj, hn, hgoto, he⟩
    · cases he
    · obtain ⟨rfl, hd⟩ := Item.mk.inj he
      obtain rfl : d = d' := Nat.succ.inj hd
      have hlt := (List.getElem?_eq_some_iff.mp hn).1
      have hn' : Item.next? G ⟨q, d⟩ = some x := by
        rw [Item.next?, right_eq hp] at hn
        rw [right_eq hp] at hlt
        rw [Item.next?, right_eq hq, hright, List.getElem?_append_left hlt]
        exact hn
      refine (mem_closure hw).mpr (.base ?_)
      change _ ∈ G.collection.kernel s
      rw [(goto?_kernel hw hgoto).2]
      exact mem_movedOver.mpr ⟨⟨q, d⟩, ih hj, hn', rfl⟩

end NumberedGrammar

lemma Cell.isShift_of_prefers {state t u : Nat} {actions : List Action} {action : Action}
    (hshift : .shift u ∈ actions) (h : action ∈ (ofActions state t true actions).actions) :
    action.isShift = true := by
  rw [ofActions] at h
  split at h
  · rename_i hlen
    obtain ⟨a, rfl⟩ := List.length_eq_one_iff.mp (hlen.antisymm (List.length_pos_of_mem hshift))
    rw [List.mem_singleton] at hshift h
    rw [h, ← hshift]
    rfl
  · have hany : actions.any Action.isShift = true := List.any_eq_true.mpr ⟨_, hshift, rfl⟩
    rw [hany] at h
    exact (List.mem_filter.mp h).2

namespace Construction

variable {prefers : List String} {g : Grammar}

lemma mem_preferred (hnodup : g.terminals.toList.Nodup) {t : Nat} {name : String}
    (ht : g.terminals[t]? = some name) (hname : name ∈ prefers) : t ∈ preferred prefers g := by
  refine List.mem_filterMap.mpr ⟨name, hname, ?_⟩
  obtain ⟨hlt, rfl⟩ := Array.getElem?_eq_some_iff.mp ht
  refine Array.findIdx?_eq_some_iff_getElem.mpr ⟨hlt, beq_self_eq_true _, fun j hj hne => ?_⟩
  have hj' := List.pairwise_iff_getElem.mp hnodup j t (by simpa using hj.trans hlt) (by simpa using hlt) hj
  exact hj' (by simpa using hne)

lemma reduce_notMem_actionsAt (hg : g.WellNumbered) (hnodup : g.terminals.toList.Nodup) {p q t : Nat}
    {short long : Production} {rest : List Symbol} {name : String} (hp : g.productions[p]? = some short)
    (hq : g.productions[q]? = some long) (hleft : long.lhs = short.lhs)
    (hright : long.rhs = short.rhs ++ .term t :: rest) (ht : g.terminals[t]? = some name)
    (hname : name ∈ prefers) (s : Nat) : .reduce p ∉ (ofGrammar prefers g).table.actionsAt s t := by
  have hw := NumberedGrammar.ofGrammar_wellFormed hg
  intro hmem
  have hs : s < (NumberedGrammar.ofGrammar g).collection.size := by
    by_contra hge
    rw [Table.actionsAt, Array.getElem?_eq_none] at hmem
    · cases hmem
    · change ((ofGrammar prefers g).cells.map _).size ≤ s
      rw [Array.size_map]
      change ((Array.range _).map _).size ≤ s
      rw [Array.size_map, Array.size_range]
      exact Nat.not_lt.mp hge
  rw [table_actionsAt hs] at hmem
  split at hmem
  · have hall := (reduce_mem_allActions hw).mp (Cell.ofActions_sublist.subset hmem)
    have hlong := Grammar.rules_getElem? hq
    have hmore : long.rhs.map g.number = short.rhs.map g.number ++ (Symbol.term t :: rest).map g.number := by
      rw [hright, List.map_append]
    have hitem := NumberedGrammar.longer_mem_closure hw (Grammar.rules_getElem? hp) hlong hleft hmore hall.1
      (NumberedGrammar.looks_mem_closure hw hall.2)
    obtain ⟨u, hu⟩ := NumberedGrammar.goto?_isSome hw hs hitem (x := g.nonterminals.size + t) (by
      rw [Item.next?, NumberedGrammar.right_eq hlong, NumberedGrammar.right_eq (Grammar.rules_getElem? hp), hright,
        List.map_append, List.getElem?_append_right le_rfl, Nat.sub_self]
      rfl)
    rw [cellAt, List.contains_iff_mem.mpr (mem_preferred hnodup ht hname)] at hmem
    cases Cell.isShift_of_prefers (shift_mem_allActions.mpr hu) hmem
  · cases hmem

end Construction

lemma construct_rules {text : String} {options : Options} {K : Construction} (h : construct text options = .ok K) :
    ∃ rules, Grammar.ofRules rules = .ok K.grammar := by
  rw [construct] at h
  cases hg : Grammar.parse text with
  | error e =>
    rw [hg] at h
    cases h
  | ok g =>
    rw [hg] at h
    obtain ⟨_, _, hK⟩ := Grammar.ok_of_bind h
    obtain ⟨rules, _, hrules⟩ := Grammar.ok_of_bind hg
    obtain rfl := Except.ok.inj hK
    exact ⟨rules, hrules⟩

end Ramify.LR
