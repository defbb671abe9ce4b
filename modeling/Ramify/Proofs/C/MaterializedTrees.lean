import Ramify.Proofs.C.SharedPool
import Mathlib

/-! Trees taken out of the pool. The copy is made with a stack of the nodes that wait, and each node tells its
parent of itself. What comes out is the tree that the pool unfolds to, with its nodes numbered from the root
down, left to right; so each subtree has a run of numbers that begins with its root. -/

namespace Ramify.C

namespace Pool

/-- Copies the nodes that wait, the first of them next, each with the number of its parent among the copies. There is
no result if a node that waits is not in the pool, or if the steps do not suffice. -/
def copy (pool : Pool) : Nat → Array Tree.Entry → List (Nat × Option Nat) → Option (Array Tree.Entry)
  | _, copied, [] => some copied
  | 0, _, _ :: _ => none
  | steps + 1, copied, (id, parent) :: waiting => do
    let node ← pool.nodes[id]?
    let number := copied.size
    let copied := copied.push ⟨node.kind, parent, [], node.span, node.annotations⟩
    let copied := match parent with
      | none => copied
      | some p => copied.modify p fun e => { e with children := e.children ++ [number] }
    pool.copy steps copied (node.children.reverse.foldl (fun waiting c => (c, some number) :: waiting) waiting)

def materialize (pool : Pool) (steps root : Nat) : Option (Array Tree.Entry) := pool.copy steps #[] [(root, none)]

end Pool

inductive Grove where
  | nil
  | node (part : Part) (below rest : Grove)

abbrev Store := Nat → Option (Part × List Nat)

inductive Store.Unfolds (s : Store) : List Nat → Grove → Prop
  | nil : Unfolds s [] .nil
  | node {id : Nat} {ids children : List Nat} {part : Part} {below rest : Grove} : s id = some (part, children) →
      Unfolds s children below → Unfolds s ids rest → Unfolds s (id :: ids) (.node part below rest)

/-- The nodes that are met below some nodes, each before its children, left to right. -/
inductive Store.Visits (s : Store) : List Nat → List Nat → Prop
  | nil : Visits s [] []
  | node {id : Nat} {ids children below rest : List Nat} {part : Part} : s id = some (part, children) →
      Visits s children below → Visits s ids rest → Visits s (id :: ids) (id :: (below ++ rest))

def Pool.store (pool : Pool) : Store := fun id => (pool.nodes[id]?).map fun n => (n.toPart, n.children)

namespace Tree

def Entry.part (e : Entry) : Part := ⟨e.kind, e.span, e.annotations⟩

def store (nodes : Array Entry) : Store := fun id => (nodes[id]?).map fun e => (e.part, e.children)

end Tree

open Ramify.C.Tree

namespace Grove

def size : Grove → Nat
  | nil => 0
  | node _ below rest => below.size + rest.size + 1

def roots (first : Nat) : Grove → List Nat
  | nil => []
  | node _ below rest => first :: rest.roots (first + 1 + below.size)

def entries (parent : Option Nat) (first : Nat) : Grove → List Entry
  | nil => []
  | node part below rest =>
    ⟨part.kind, parent, below.roots (first + 1), part.span, part.annotations⟩ ::
      (below.entries (some first) (first + 1) ++ rest.entries parent (first + 1 + below.size))

lemma length_entries (t : Grove) (parent : Option Nat) (first : Nat) : (t.entries parent first).length = t.size := by
  induction t generalizing parent first with
  | nil => rfl
  | node part below rest ihbelow ihrest =>
    rw [entries, List.length_cons, List.length_append, ihbelow, ihrest, size]

end Grove

section Copying

variable {nodes : Array Entry} {parent : Option Nat} {numbers more : List Nat} {p : Nat}

def adopt (parent : Option Nat) (numbers : List Nat) (nodes : Array Entry) : Array Entry :=
  match parent with
  | none => nodes
  | some p => nodes.modify p fun e => { e with children := e.children ++ numbers }

lemma size_adopt : (adopt parent numbers nodes).size = nodes.size := by
  cases parent with
  | none => rfl
  | some p => exact Array.size_modify

lemma adopt_nil : adopt parent [] nodes = nodes := by
  cases parent with
  | none => rfl
  | some p =>
    refine Array.ext_getElem? fun i => ?_
    rw [adopt, Array.getElem?_modify]
    split
    · simp
    · rfl

lemma adopt_adopt : adopt parent more (adopt parent numbers nodes) = adopt parent (numbers ++ more) nodes := by
  cases parent with
  | none => rfl
  | some p =>
    refine Array.ext_getElem? fun i => ?_
    simp only [adopt, Array.getElem?_modify]
    split
    · simp [Function.comp_def]
    · rfl

lemma adopt_append (hparent : ∀ p ∈ parent, p < nodes.size) (l : List Entry) :
    adopt parent numbers (nodes ++ l.toArray) = adopt parent numbers nodes ++ l.toArray := by
  cases parent with
  | none => rfl
  | some p =>
    have hp : p < nodes.size := hparent p rfl
    refine Array.ext_getElem? fun i => ?_
    rw [adopt, adopt, Array.getElem?_modify, Array.getElem?_append, Array.getElem?_append, Array.size_modify,
      Array.getElem?_modify]
    split_ifs with hi hlt hlt
    · rfl
    · exact absurd (hi ▸ hp) hlt
    · rfl
    · rfl

lemma adopt_push (hparent : ∀ p ∈ parent, p < nodes.size) (e : Entry) :
    adopt (some nodes.size) more (adopt parent numbers (nodes.push e)) =
      adopt parent numbers nodes ++ #[{ e with children := e.children ++ more }] := by
  have hpush : nodes.push e = nodes ++ [e].toArray := rfl
  rw [hpush, adopt_append hparent]
  refine Array.ext_getElem? fun i => ?_
  rw [adopt, Array.getElem?_modify, Array.getElem?_append, Array.getElem?_append, size_adopt]
  by_cases hi : nodes.size = i
  · subst hi
    simp
  · rw [if_neg hi]
    split
    · rfl
    · have hlt : 0 < i - nodes.size := by omega
      simp [Nat.ne_of_gt hlt]

end Copying

section Copy

variable {pool : Pool} {ids : List Nat} {t : Grove}

lemma foldl_waiting (children : List Nat) (n : Nat) (waiting : List (Nat × Option Nat)) :
    children.reverse.foldl (fun waiting c => (c, some n) :: waiting) waiting =
      children.map (fun c => (c, some n)) ++ waiting := by
  rw [List.foldl_reverse]
  induction children with
  | nil => rfl
  | cons c children ih => rw [List.foldr_cons, ih, List.map_cons, List.cons_append]

lemma copy_node (pool : Pool) {id : Nat} {part : Part} {children : List Nat} (h : pool.store id = some (part, children))
    (steps : Nat) (nodes : Array Entry) (parent : Option Nat) (waiting : List (Nat × Option Nat)) :
    pool.copy (steps + 1) nodes ((id, parent) :: waiting) =
      pool.copy steps (adopt parent [nodes.size] (nodes.push ⟨part.kind, parent, [], part.span, part.annotations⟩))
        (children.map (fun c => (c, some nodes.size)) ++ waiting) := by
  obtain ⟨node, hn, he⟩ := Option.map_eq_some_iff.mp h
  obtain ⟨rfl, rfl⟩ := Prod.mk.inj he
  rw [Pool.copy, hn, ← foldl_waiting]
  rfl

lemma copy_unfolded (h : pool.store.Unfolds ids t) (steps : Nat) (nodes : Array Entry) (parent : Option Nat)
    (hparent : ∀ p ∈ parent, p < nodes.size) (waiting : List (Nat × Option Nat)) :
    pool.copy (t.size + steps) nodes (ids.map (fun c => (c, parent)) ++ waiting) =
      pool.copy steps (adopt parent (t.roots nodes.size) nodes ++ (t.entries parent nodes.size).toArray) waiting := by
  -- The parent is known of its children one by one, as each of them is reached.
  induction h generalizing steps nodes parent waiting with
  | nil =>
    rw [Grove.roots, adopt_nil, Grove.entries, List.map_nil, List.nil_append, Array.append_empty, Grove.size,
      Nat.zero_add]
  | @node id ids children part below rest hs _ _ ihbelow ihrest =>
    let subtree : List Entry := ⟨part.kind, parent, below.roots (nodes.size + 1), part.span, part.annotations⟩ ::
      below.entries (some nodes.size) (nodes.size + 1)
    let nodes' := adopt parent [nodes.size] nodes ++ subtree.toArray
    have hsubtree : pool.copy (below.size + (rest.size + steps) + 1) nodes
        ((id, parent) :: (ids.map (fun c => (c, parent)) ++ waiting)) =
          pool.copy (rest.size + steps) nodes' (ids.map (fun c => (c, parent)) ++ waiting) := by
      have hpushed (e : Entry) : (adopt parent [nodes.size] (nodes.push e)).size = nodes.size + 1 := by
        rw [size_adopt, Array.size_push]
      rw [copy_node pool hs, ihbelow, hpushed, adopt_push hparent, Array.append_assoc, List.append_toArray [_]]
      · rfl
      · rintro _ ⟨⟩
        rw [hpushed]
        exact Nat.lt_succ_self _
    have hsize : nodes'.size = nodes.size + 1 + below.size := by
      simp [nodes', subtree, size_adopt, Grove.length_entries]
      omega
    have hsteps : (Grove.node part below rest).size + steps = below.size + (rest.size + steps) + 1 := by
      rw [Grove.size]
      omega
    have hrest := ihrest steps nodes' parent (fun p hp => by have := hparent p hp; omega) waiting
    rw [hsize, adopt_append (by rwa [size_adopt]), adopt_adopt, Array.append_assoc,
      List.append_toArray subtree] at hrest
    rw [List.map_cons, List.cons_append, hsteps, hsubtree, hrest]
    rfl

lemma exists_unfolds (hordered : pool.Ordered) {bound : Nat} (hbound : bound ≤ pool.size)
    (hids : ∀ id ∈ ids, id < bound) : ∃ t, pool.store.Unfolds ids t := by
  induction bound using Nat.strong_induction_on generalizing ids with
  | _ bound ih =>
    induction ids with
    | nil => exact ⟨.nil, .nil⟩
    | cons id ids ihids =>
      obtain ⟨hid, hrest⟩ := List.forall_mem_cons.mp hids
      obtain ⟨node, hn⟩ : ∃ node, pool.nodes[id]? = some node := ⟨_, Array.getElem?_eq_getElem (hid.trans_le hbound)⟩
      obtain ⟨below, hbelow⟩ := ih id hid (hid.le.trans hbound) (hordered id _ hn)
      obtain ⟨rest, hrest⟩ := ihids hrest
      have hs : pool.store id = some (node.toPart, node.children) := by rw [Pool.store, hn]; rfl
      exact ⟨_, .node hs hbelow hrest⟩

lemma materialize_unfolded {root steps : Nat} (h : pool.store.Unfolds [root] t) (hsteps : t.size ≤ steps) :
    pool.materialize steps root = some (t.entries none 0).toArray := by
  obtain ⟨spare, rfl⟩ := Nat.exists_eq_add_of_le hsteps
  have hcopy := copy_unfolded h spare #[] none (fun _ hp => nomatch hp) []
  rw [Pool.copy, Array.size_empty, adopt, Array.empty_append] at hcopy
  exact hcopy

end Copy

lemma Store.Unfolds.unique {s : Store} {ids : List Nat} {t u : Grove} (h : s.Unfolds ids t) (hu : s.Unfolds ids u) :
    t = u := by
  induction h generalizing u with
  | nil =>
    cases hu
    rfl
  | node hs _ _ ihbelow ihrest =>
    cases hu with
    | node hs' hbelow hrest =>
      obtain ⟨rfl, rfl⟩ := Prod.mk.inj (Option.some.inj (hs.symm.trans hs'))
      rw [ihbelow hbelow, ihrest hrest]

inductive Stands (nodes : Array Entry) : Option Nat → Nat → Grove → Prop
  | nil {parent : Option Nat} {first : Nat} : Stands nodes parent first .nil
  | node {parent : Option Nat} {first : Nat} {part : Part} {below rest : Grove} :
      nodes[first]? = some ⟨part.kind, parent, below.roots (first + 1), part.span, part.annotations⟩ →
      Stands nodes (some first) (first + 1) below → Stands nodes parent (first + 1 + below.size) rest →
      Stands nodes parent first (.node part below rest)

section Standing

variable {nodes : Array Entry} {parent : Option Nat} {first k : Nat} {t : Grove}

lemma stands_entries (t : Grove) (parent : Option Nat) (before after : List Entry) :
    Stands (before ++ t.entries parent before.length ++ after).toArray parent before.length t := by
  induction t generalizing parent before after with
  | nil => exact .nil
  | node part below rest ihbelow ihrest =>
    let e : Entry := ⟨part.kind, parent, below.roots (before.length + 1), part.span, part.annotations⟩
    let subtree := e :: below.entries (some before.length) (before.length + 1)
    let others := rest.entries parent (before.length + 1 + below.size)
    refine .node (by simp [Grove.entries]) ?_ ?_
    · have hbelow := ihbelow (some before.length) (before ++ [e]) (others ++ after)
      rw [List.length_append, List.length_singleton] at hbelow
      simpa [Grove.entries, e, others] using hbelow
    · have hrest := ihrest parent (before ++ subtree) after
      have hlength : (before ++ subtree).length = before.length + 1 + below.size := by
        simp [subtree, Grove.length_entries]
        omega
      rw [hlength] at hrest
      simpa [Grove.entries, e, subtree] using hrest

lemma Stands.unfolds (h : Stands nodes parent first t) : (Tree.store nodes).Unfolds (t.roots first) t := by
  induction h with
  | nil => exact .nil
  | @node _ first part below _ hn _ _ ihbelow ihrest =>
    have hs : Tree.store nodes first = some (part, below.roots (first + 1)) := by rw [Tree.store, hn]; rfl
    exact .node hs ihbelow ihrest

lemma Stands.visits (h : Stands nodes parent first t) :
    (Tree.store nodes).Visits (t.roots first) (List.range' first t.size) := by
  induction h with
  | nil => exact .nil
  | @node _ first part below rest hn _ _ ihbelow ihrest =>
    have hs : Tree.store nodes first = some (part, below.roots (first + 1)) := by rw [Tree.store, hn]; rfl
    rw [Grove.size, List.range'_succ, ← List.range'_append_1]
    exact .node hs ihbelow ihrest

lemma Stands.parent_of_root (h : Stands nodes parent first t) :
    ∀ c ∈ t.roots first, ∃ e, nodes[c]? = some e ∧ e.parent = parent := by
  induction h with
  | nil => nofun
  | node hn _ _ _ ihrest => exact List.forall_mem_cons.mpr ⟨⟨_, hn, rfl⟩, ihrest⟩

lemma Stands.subtree (h : Stands nodes parent first t) (hfirst : first ≤ k) (hk : k < first + t.size) :
    ∃ above part below, Stands nodes above k (.node part below .nil) ∧
      ((above = parent ∧ k ∈ t.roots first) ∨
        ∃ p e, above = some p ∧ p < k ∧ nodes[p]? = some e ∧ k ∈ e.children) := by
  induction h with
  | nil => exact absurd hk (by simpa [Grove.size] using hfirst)
  | @node parent first part below rest hn hbelow _ ihbelow ihrest =>
    rw [Grove.size] at hk
    rcases Nat.eq_or_lt_of_le hfirst with rfl | hlt
    · exact ⟨parent, part, below, .node hn hbelow .nil, Or.inl ⟨rfl, List.mem_cons_self⟩⟩
    · rcases Nat.lt_or_ge k (first + 1 + below.size) with hin | hout
      · obtain ⟨above, part', below', hsub, ⟨rfl, hroot⟩ | hlisted⟩ := ihbelow hlt hin
        · exact ⟨_, part', below', hsub, Or.inr ⟨first, _, rfl, hlt, hn, hroot⟩⟩
        · exact ⟨above, part', below', hsub, Or.inr hlisted⟩
      · obtain ⟨above, part', below', hsub, ⟨rfl, hroot⟩ | hlisted⟩ := ihrest hout (by omega)
        · exact ⟨_, part', below', hsub, Or.inl ⟨rfl, List.mem_cons_of_mem _ hroot⟩⟩
        · exact ⟨above, part', below', hsub, Or.inr hlisted⟩

end Standing

structure Numbered (nodes : Array Entry) (t : Grove) : Prop where
  stands : Stands nodes none 0 t
  size_eq : nodes.size = t.size
  roots_eq : t.roots 0 = [0]

namespace Numbered

variable {nodes : Array Entry} {t : Grove} {k p c : Nat}

lemma subtree (h : Numbered nodes t) (hk : k < nodes.size) :
    ∃ above part below, Stands nodes above k (.node part below .nil) ∧
      ((above = none ∧ k = 0) ∨ ∃ p e, above = some p ∧ p < k ∧ nodes[p]? = some e ∧ k ∈ e.children) := by
  obtain ⟨above, part, below, hsub, hcases⟩ := h.stands.subtree (Nat.zero_le k) (by rwa [Nat.zero_add, ← h.size_eq])
  rw [h.roots_eq, List.mem_singleton] at hcases
  exact ⟨above, part, below, hsub, hcases⟩

lemma exists_visits (h : Numbered nodes t) (hk : k < nodes.size) :
    ∃ n, (Tree.store nodes).Visits [k] (List.range' k n) := by
  obtain ⟨above, part, below, hsub, _⟩ := h.subtree hk
  exact ⟨_, hsub.visits⟩

lemma mem_children_iff (h : Numbered nodes t) :
    (∃ e, nodes[p]? = some e ∧ c ∈ e.children) ↔ (nodes[c]?).bind Entry.parent = some p := by
  constructor
  · rintro ⟨e, he, hc⟩
    obtain ⟨above, part, below, hsub, _⟩ := h.subtree (Array.getElem?_eq_some_iff.mp he).1
    cases hsub with
    | node hn hbelow _ =>
      obtain rfl := Option.some.inj (he.symm.trans hn)
      obtain ⟨e, hc, hparent⟩ := hbelow.parent_of_root c hc
      rw [hc, Option.bind_some, hparent]
  · intro hparent
    obtain ⟨e, he, hp⟩ := Option.bind_eq_some_iff.mp hparent
    obtain ⟨above, part, below, hsub, hcases⟩ := h.subtree (Array.getElem?_eq_some_iff.mp he).1
    cases hsub with
    | node hn _ _ =>
      obtain rfl := Option.some.inj (he.symm.trans hn)
      obtain rfl : above = some p := hp
      rcases hcases with ⟨hnone, _⟩ | ⟨p', e, hp', _, hlisted⟩
      · cases hnone
      · cases hp'
        exact ⟨e, hlisted⟩

lemma parent_zero (h : Numbered nodes t) : (nodes[0]?).bind Entry.parent = none := by
  obtain ⟨e, he, hparent⟩ := h.stands.parent_of_root 0 (h.roots_eq ▸ List.mem_cons_self)
  rw [he, Option.bind_some, hparent]

lemma exists_parent (h : Numbered nodes t) (hk : k < nodes.size) (hne : k ≠ 0) :
    ∃ p < k, (nodes[k]?).bind Entry.parent = some p := by
  obtain ⟨above, part, below, hsub, ⟨_, hzero⟩ | ⟨p, e, rfl, hlt, _⟩⟩ := h.subtree hk
  · exact absurd hzero hne
  · cases hsub with
    | node hn _ _ => exact ⟨p, hlt, by rw [hn]; rfl⟩

lemma parent_eq_none_iff (h : Numbered nodes t) (hk : k < nodes.size) :
    (nodes[k]?).bind Entry.parent = none ↔ k = 0 := by
  constructor
  · intro hnone
    by_contra hne
    obtain ⟨p, _, hp⟩ := h.exists_parent hk hne
    rw [hnone] at hp
    cases hp
  · rintro rfl
    exact h.parent_zero

lemma exists_ancestors (h : Numbered nodes t) (hk : k < nodes.size) :
    ∃ above, (∀ fuel, k ≤ fuel → ancestors nodes fuel k = above) ∧ (k = 0 → above = []) ∧
      (k ≠ 0 → above.getLast? = some 0) := by
  induction k using Nat.strong_induction_on with
  | _ k ih =>
    by_cases hzero : k = 0
    · subst hzero
      refine ⟨[], fun fuel _ => ?_, fun _ => rfl, fun hne => absurd rfl hne⟩
      cases fuel with
      | zero => rfl
      | succ fuel => rw [ancestors, h.parent_zero]
    · obtain ⟨p, hp, hparent⟩ := h.exists_parent hk hzero
      obtain ⟨above, habove, hnil, hlast⟩ := ih p hp (hp.trans hk)
      refine ⟨p :: above, fun fuel hfuel => ?_, fun he => absurd he hzero, fun _ => ?_⟩
      · obtain ⟨f, rfl⟩ := Nat.exists_eq_add_of_le' (Nat.one_le_of_lt (Nat.pos_of_ne_zero hzero |>.trans_le hfuel))
        rw [ancestors, hparent]
        dsimp only
        rw [habove f (by omega)]
      · by_cases hp0 : p = 0
        · rw [hnil hp0, hp0]
          rfl
        · rw [List.getLast?_cons, hlast hp0]
          rfl

end Numbered

section Bare

variable {pool : Pool} {ids : List Nat} {t : Grove}

def Pool.Bare (pool : Pool) : Prop := ∀ (id : Nat) (node : PoolNode) (token : Nat), pool.nodes[id]? = some node →
  node.kind = .terminal token → node.children = [] ∧ node.annotations = {}

lemma Pool.Bare.tree_eq (hordered : pool.Ordered) (h : pool.Bare) {id : Nat} {part : Part} {children : List Nat}
    {below : Grove} (hs : pool.store id = some (part, children)) (hbelow : pool.store.Unfolds children below)
    (hsize : sizes (children.map pool.tree) = below.size)
    (hroots : ∀ first, childNumbers first (children.map pool.tree) = below.roots first)
    (hentries : ∀ parent first, childEntries parent first (children.map pool.tree) = below.entries (some parent) first) :
    (pool.tree id).size = below.size + 1 ∧ ∀ parent first, entriesFrom parent first (pool.tree id) =
      ⟨part.kind, parent, below.roots (first + 1), part.span, part.annotations⟩ ::
        below.entries (some first) (first + 1) := by
  obtain ⟨node, hn, he⟩ := Option.map_eq_some_iff.mp hs
  obtain ⟨rfl, rfl⟩ := Prod.mk.inj he
  cases hkind : node.kind with
  | nonterminal production =>
    rw [hordered.tree_eq hn hkind, Tree.size, hsize]
    refine ⟨rfl, fun parent first => ?_⟩
    rw [entriesFrom, hroots, hentries]
  | terminal token =>
    obtain ⟨hleaf, hplain⟩ := h id node token hn hkind
    rw [hleaf] at hbelow
    cases hbelow
    have htree : pool.tree id = .leaf token node.span := by rw [Pool.tree, hn]; dsimp only; rw [hkind]
    rw [htree, hplain]
    exact ⟨rfl, fun _ _ => rfl⟩

lemma Pool.Bare.trees_eq (hordered : pool.Ordered) (hbare : pool.Bare) (h : pool.store.Unfolds ids t) :
    sizes (ids.map pool.tree) = t.size ∧ (∀ first, childNumbers first (ids.map pool.tree) = t.roots first) ∧
      ∀ parent first, childEntries parent first (ids.map pool.tree) = t.entries (some parent) first := by
  induction h with
  | nil => exact ⟨rfl, fun _ => rfl, fun _ _ => rfl⟩
  | node hs hbelow _ ihbelow ihrest =>
    obtain ⟨hsize, hroots, hentries⟩ := ihbelow
    obtain ⟨hsize', hroots', hentries'⟩ := ihrest
    obtain ⟨hfirst, hnode⟩ := hbare.tree_eq hordered hs hbelow hsize hroots hentries
    refine ⟨?_, fun first => ?_, fun parent first => ?_⟩
    · rw [List.map_cons, sizes, hfirst, hsize', Grove.size, Nat.add_right_comm]
    · rw [List.map_cons, childNumbers, hfirst, hroots', Grove.roots, Nat.add_assoc, Nat.add_comm 1]
    · rw [List.map_cons, childEntries, hnode, hfirst, hentries', Grove.entries, Nat.add_assoc, Nat.add_comm 1]
      rfl

lemma Pool.Bare.entries_eq (hordered : pool.Ordered) (hbare : pool.Bare) {root : Nat}
    (h : pool.store.Unfolds [root] t) : (pool.tree root).entries = t.entries none 0 := by
  cases h with
  | node hs hbelow hrest =>
    cases hrest
    obtain ⟨hsize, hroots, hentries⟩ := hbare.trees_eq hordered hbelow
    obtain ⟨_, hnode⟩ := hbare.tree_eq hordered hs hbelow hsize hroots hentries
    rw [Tree.entries, hnode, Grove.entries, Grove.entries, List.append_nil]

end Bare

/-- A tree that is taken out of the pool is the tree that the pool unfolds to, numbered from the root down. -/
theorem materialize_unfolds {pool : Pool} {root : Nat} (h : pool.Ordered) (hroot : root < pool.size) :
    ∃ nodes, (∀ steps ≥ nodes.size, pool.materialize steps root = some nodes) ∧
      (∃ t, pool.store.Unfolds [root] t) ∧
      (∀ t, pool.store.Unfolds [root] t ↔ (Tree.store nodes).Unfolds [0] t) ∧
      (Tree.store nodes).Visits [0] (List.range nodes.size) ∧
      (∀ id < nodes.size, ∃ n, (Tree.store nodes).Visits [id] (List.range' id n)) ∧
      (∀ p c, (∃ e, nodes[p]? = some e ∧ c ∈ e.children) ↔ (nodes[c]?).bind Entry.parent = some p) ∧
      (∀ id < nodes.size, (nodes[id]?).bind Entry.parent = none ↔ id = 0) ∧
      (∀ id < nodes.size, ∃ above, (∀ fuel, id ≤ fuel → ancestors nodes fuel id = above) ∧ (id = 0 → above = []) ∧
        (id ≠ 0 → above.getLast? = some 0)) ∧
      (pool.Bare → nodes = (pool.tree root).entries.toArray) := by
  obtain ⟨t, ht⟩ := exists_unfolds h le_rfl (List.forall_mem_singleton.mpr hroot)
  have hstands := stands_entries t none [] []
  rw [List.nil_append, List.append_nil, List.length_nil] at hstands
  have hnumbered : Numbered (t.entries none 0).toArray t := by
    refine ⟨hstands, ?_, ?_⟩
    · rw [List.size_toArray, Grove.length_entries]
    · cases ht with
      | node _ _ hrest =>
        cases hrest
        rfl
  have hunfolds := hstands.unfolds
  have hvisits := hstands.visits
  rw [hnumbered.roots_eq] at hunfolds hvisits
  refine ⟨_, fun steps hsteps => materialize_unfolded ht (hnumbered.size_eq ▸ hsteps), ⟨t, ht⟩,
    fun u => ⟨fun hu => ?_, fun hu => ?_⟩, ?_,
    fun id hid => hnumbered.exists_visits hid, fun p c => hnumbered.mem_children_iff,
    fun id hid => hnumbered.parent_eq_none_iff hid, fun id hid => hnumbered.exists_ancestors hid, fun hbare => ?_⟩
  · exact ht.unique hu ▸ hunfolds
  · exact hunfolds.unique hu ▸ ht
  · rwa [hnumbered.size_eq, List.range_eq_range']
  · rw [hbare.entries_eq h ht]

theorem materialize_unfolds_shared : ∃ (pool : Pool) (nodes : Array Entry) (leaf inner root : Part),
    pool.size = 3 ∧ pool.materialize nodes.size 2 = some nodes ∧ (Tree.store nodes).Unfolds [0]
      (.node root (.node inner (.node leaf .nil .nil) (.node leaf .nil (.node inner (.node leaf .nil .nil) .nil)))
        .nil) := by
  let leaf : Part := ⟨.terminal 0, {}, {}⟩
  let inner : Part := ⟨.nonterminal 1, {}, {}⟩
  let root : Part := ⟨.nonterminal 2, {}, {}⟩
  let leaves : Pool := (({} : Pool).push ⟨leaf, []⟩).1
  let inners : Pool := (leaves.push ⟨inner, [0]⟩).1
  let pool : Pool := (inners.push ⟨root, [1, 0, 1]⟩).1
  have hleaves : leaves.Ordered := Pool.ordered_empty.push (by decide)
  have hinners : inners.Ordered := hleaves.push (by decide)
  have hordered : pool.Ordered := hinners.push (by decide)
  have hroot : 2 < pool.size := by decide
  obtain ⟨nodes, hnodes, _, hunfolds, _⟩ := materialize_unfolds hordered hroot
  refine ⟨pool, nodes, leaf, inner, root, rfl, hnodes _ le_rfl, (hunfolds _).mp ?_⟩
  have hleaf : pool.store.Unfolds [0] (.node leaf .nil .nil) := .node rfl .nil .nil
  have hinner : pool.store.Unfolds [1] (.node inner (.node leaf .nil .nil) .nil) := .node rfl hleaf .nil
  exact .node rfl (.node rfl hleaf (.node rfl .nil hinner)) .nil

section Search

variable {E : FrontEnd} {tokens : Array Token}

lemma Pool.Bare.push {pool : Pool} (h : pool.Bare) {node : PoolNode}
    (hnode : ∀ token, node.kind = .terminal token → node.children = [] ∧ node.annotations = {}) :
    (pool.push node).1.Bare := by
  intro id node' token hn
  rcases Nat.lt_or_ge id pool.size with hlt | hge
  · rw [Pool.getElem?_push node hlt] at hn
    exact h id node' token hn
  · have hle := Pool.lt_size_of_getElem? hn
    rw [Pool.size_push] at hle
    obtain rfl : id = pool.size := by omega
    rw [Pool.getElem?_push_size] at hn
    cases hn
    exact hnode token

variable (E tokens) in
lemma Pool.Bare.move {pool : Pool} (h : pool.Bare) (p : Search.Path Nat Context) (token : Token) (action : Action) :
    ((E.parser tokens).move tokens pool p token action).1.Bare := by
  rcases Search.Parser.move_store (E.parser tokens) tokens pool p token action with hs | hs | ⟨production, hs⟩
  · rwa [hs]
  · rw [hs]
    exact h.push fun _ _ => ⟨rfl, rfl⟩
  · rw [hs]
    change ((E.reader tokens).reduce pool p.context production _).1.Bare
    rw [Reader.reduce]
    split
    · exact h
    · refine h.push ?_
      rintro _ ⟨⟩

variable (E tokens) in
lemma Pool.Bare.next {pool pool' : Pool} (h : pool.Bare) {p q : Search.Path Nat Context} {token : Token}
    {action : Action} (hm : (E.parser tokens).move tokens pool p token action = (pool', .next q)) : pool'.Bare := by
  have hmove := h.move E tokens p token action
  rwa [hm] at hmove

/-- The search takes its trees out of a pool of this kind, so each is what its root unfolds to. -/
theorem FrontEnd.materialize_roots (E : FrontEnd) (tokens : Array Token) {roots : List Nat}
    (h : (E.search tokens).result = .ok roots) : ∀ root ∈ roots,
      ∀ steps ≥ ((E.search tokens).store.tree root).entries.length,
        (E.search tokens).store.materialize steps root = some ((E.search tokens).store.tree root).entries.toArray := by
  intro root hroot steps hsteps
  have hne : tokens ≠ #[] := by
    rintro rfl
    cases h
  have hviews : (E.search tokens).Views Pool.Holds ((E.treeEngine tokens).parse {} () tokens) :=
    (treeEngine_follows E tokens).parse {} {}
  obtain ⟨⟨failure, hfailed, _⟩ | ⟨roots', trees, hroots, _, hholds⟩, _⟩ := hviews
  · rw [hfailed] at h
    cases h
  obtain rfl : roots' = roots := Except.ok.inj (hroots.symm.trans h)
  obtain ⟨_, failure, _, hr⟩ | ⟨T, hT, _, hstore⟩ :=
    Search.Parser.parse_result (P := E.parser tokens) {} {} hne
  · rw [search, hr] at h
    cases h
  have hordered : (E.search tokens).store.Ordered := by
    rw [search, hstore]
    exact (run_store hT .refl).1
  have hbare : (E.search tokens).store.Bare := by
    have hempty : ({} : Pool).Bare := by
      intro id node token hn
      cases hn
    obtain ⟨_, hbare⟩ := Search.Parser.run_shared_invariant (I := fun pool _ => pool.Bare)
      (fun {_ p _} token action hp _ => hp.move E tokens p token action) (fun hp _ _ hm => hp.next E tokens hm) hT
      .refl fun _ _ => hempty
    rwa [search, hstore]
  have hlt : ∀ root ∈ roots', root < (E.search tokens).store.size :=
    ((List.forall₂_and_left _ _).mp (hholds.imp fun {_ _} hc => ⟨hc.lt, hc⟩)).1
  obtain ⟨t, ht⟩ := exists_unfolds hordered le_rfl (List.forall_mem_singleton.mpr (hlt root hroot))
  rw [hbare.entries_eq hordered ht, Grove.length_entries] at hsteps
  rw [materialize_unfolded ht hsteps, hbare.entries_eq hordered ht]

end Search

end Ramify.C
