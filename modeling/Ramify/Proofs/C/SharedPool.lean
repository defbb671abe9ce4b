import Ramify.Proofs.C.TreeReading
import Ramify.Proofs.Search.Lockstep

namespace Ramify.C

namespace Pool

def Ordered (pool : Pool) : Prop :=
  ∀ (id : Nat) (node : PoolNode), pool.nodes[id]? = some node → ∀ c ∈ node.children, c < id

def Within (pool pool' : Pool) : Prop :=
  ∀ (id : Nat) (node : PoolNode), pool.nodes[id]? = some node → pool'.nodes[id]? = some node

variable {pool pool' pool'' : Pool} {id : Nat}

lemma lt_size_of_getElem? {node : PoolNode} (h : pool.nodes[id]? = some node) : id < pool.size :=
  (Array.getElem?_eq_some_iff.mp h).1

lemma within_refl (pool : Pool) : pool.Within pool := fun _ _ hn => hn

lemma Within.trans (h : pool.Within pool') (h' : pool'.Within pool'') : pool.Within pool'' :=
  fun id node hn => h' id node (h id node hn)

lemma within_push (pool : Pool) (node : PoolNode) : pool.Within (pool.push node).1 :=
  fun _ _ hn => (getElem?_push node (lt_size_of_getElem? hn)).trans hn

lemma size_lt_push (pool : Pool) (node : PoolNode) : pool.size < (pool.push node).1.size := by
  rw [size_push]
  exact Nat.lt_succ_self _

lemma ordered_empty : ({} : Pool).Ordered := by
  intro id node hn
  cases hn

lemma Ordered.push (h : pool.Ordered) {node : PoolNode} (hc : ∀ c ∈ node.children, c < pool.size) :
    (pool.push node).1.Ordered := by
  intro id node' hn
  rcases Nat.lt_or_ge id pool.size with hlt | hge
  · rw [getElem?_push node hlt] at hn
    exact h id node' hn
  · have hle := lt_size_of_getElem? hn
    rw [size_push] at hle
    obtain rfl : id = pool.size := by omega
    rw [getElem?_push_size] at hn
    cases hn
    exact hc

lemma Ordered.tree_eq (h : pool.Ordered) {node : PoolNode} {production : Nat} (hn : pool.nodes[id]? = some node)
    (hk : node.kind = .nonterminal production) :
    pool.tree id = .node production node.span node.annotations (node.children.map pool.tree) := by
  rw [tree, hn]
  dsimp only
  rw [hk]
  refine congrArg _ (List.map_congr_left fun c hc => ?_)
  rw [dif_pos (h id node hn c hc)]

end Pool

namespace Reader

variable (R : Reader) {pool pool' : Pool} {ctx ctx' : Context} {id : Nat}

lemma reduce_store (pool : Pool) (ctx : Context) (p : Production) (children : List Nat) :
    (R.reduce pool ctx p children).1 = pool ∨
      ∃ node : PoolNode, node.children = children ∧ (R.reduce pool ctx p children).1 = (pool.push node).1 := by
  rw [reduce]
  cases R.interpret ctx p.index (children.map pool.part) with
  | error e => exact Or.inl rfl
  | ok r => exact Or.inr ⟨_, rfl, rfl⟩

lemma reduce_ok {p : Production} {children : List Nat}
    (h : R.reduce pool ctx p children = (pool', .ok (ctx', id))) :
    ∃ node : PoolNode, node.children = children ∧ (pool', id) = pool.push node := by
  rw [reduce] at h
  cases hi : R.interpret ctx p.index (children.map pool.part) with
  | error e =>
    rw [hi] at h
    cases h
  | ok r =>
    rw [hi] at h
    cases h
    exact ⟨_, rfl, rfl⟩

end Reader

namespace FrontEnd

open Search

variable (E : FrontEnd) (tokens : Array Token)

/-- The engine of the front end, with the trees themselves as values. -/
def treeEngine : Parser Token Tree Context FrontError Unit :=
  { E.treeParser tokens with limits := E.config.limits, traced := E.config.trace }

def parseTrees : Except FrontError (List Tree × Stats) :=
  let p := (E.treeEngine tokens).parse {} () tokens
  match p.result with
  | .error f => .error (errorOf tokens f)
  | .ok trees => .ok (trees, p.stats)

variable {E tokens} {S T : State Nat Context FrontError Pool}

def Stacked (pool : Pool) (p : Path Nat Context) : Prop :=
  pool.Ordered ∧ ∀ id ∈ p.values, id < pool.size

variable (E tokens) in
lemma treeEngine_follows : (E.treeEngine tokens).Follows (E.parser tokens) Pool.Holds where
  table_eq := rfl
  builder := (E.reader tokens).treeBuilder_mirrors
  limits_eq := rfl
  traced_eq := rfl

variable (E tokens) in
lemma move_store (pool : Pool) (p : Path Nat Context) (token : Token) (action : Action) :
    ((E.parser tokens).move tokens pool p token action).1 = pool ∨ ∃ node : PoolNode,
      (∀ c ∈ node.children, c ∈ p.values) ∧
        ((E.parser tokens).move tokens pool p token action).1 = (pool.push node).1 := by
  rcases Parser.move_store (E.parser tokens) tokens pool p token action with hs | hs | ⟨production, hs⟩
  · exact Or.inl hs
  · exact Or.inr ⟨_, List.forall_mem_nil _, hs⟩
  · rw [hs]
    refine ((E.reader tokens).reduce_store pool p.context production _).imp_right ?_
    rintro ⟨node, hnode, hpush⟩
    refine ⟨node, fun c hc => ?_, hpush⟩
    rw [hnode, List.mem_reverse] at hc
    exact List.mem_of_mem_take hc

variable (E tokens) in
lemma within_move (pool : Pool) (p : Path Nat Context) (token : Token) (action : Action) :
    pool.Within ((E.parser tokens).move tokens pool p token action).1 := by
  rcases move_store E tokens pool p token action with hs | ⟨node, _, hs⟩
  · rw [hs]
    exact pool.within_refl
  · rw [hs]
    exact pool.within_push node

lemma Stacked.move {pool : Pool} {p q : Path Nat Context} (token : Token) (action : Action) (hp : Stacked pool p)
    (hq : Stacked pool q) : Stacked ((E.parser tokens).move tokens pool p token action).1 q := by
  rcases move_store E tokens pool p token action with hs | ⟨node, hc, hs⟩
  · rwa [hs]
  · rw [hs]
    refine ⟨hp.1.push fun c hmem => hp.2 c (hc c hmem), fun id hid => ?_⟩
    rw [Pool.size_push]
    exact Nat.lt_succ_of_lt (hq.2 id hid)

lemma Stacked.next {pool pool' : Pool} {p q : Path Nat Context} {token : Token} {action : Action}
    (hp : Stacked pool p) (hm : (E.parser tokens).move tokens pool p token action = (pool', .next q)) :
    Stacked pool' q := by
  have hkeep : Stacked ((E.parser tokens).move tokens pool p token action).1 p := hp.move token action hp
  rw [hm] at hkeep
  refine ⟨hkeep.1, ?_⟩
  cases action with
  | shift target =>
    obtain ⟨_, context, value, hb, rfl⟩ := Parser.shift_next hm
    cases hb
    exact List.forall_mem_cons.mpr ⟨pool.size_lt_push _, hkeep.2⟩
  | reduce index =>
    obtain ⟨production, _, _, context, value, _, _, _, _, hb, rfl⟩ := Parser.reduce_next hm
    obtain ⟨node, _, hpush⟩ := (E.reader tokens).reduce_ok hb
    obtain ⟨rfl, rfl⟩ := Prod.mk.inj hpush
    exact List.forall_mem_cons.mpr ⟨pool.size_lt_push node, fun id hid => hkeep.2 id (List.mem_of_mem_drop hid)⟩
  | accept => exact absurd hm Parser.accept_ne_next

lemma stacked_of_reaches (h : (E.parser tokens).Reaches tokens ((E.parser tokens).start {}) S) :
    ∀ p ∈ Parser.paths S, Stacked S.store p := by
  refine h.shared_invariant (fun token action hp hq => hp.move token action hq) (fun hp _ _ hm => hp.next hm) ?_
  intro p hp
  obtain rfl := List.mem_singleton.mp hp
  exact ⟨Pool.ordered_empty, List.forall_mem_nil _⟩

lemma Within.next {pool pool' pool'' : Pool} {p q : Path Nat Context} {token : Token} {action : Action}
    (h : pool.Within pool') (hm : (E.parser tokens).move tokens pool' p token action = (pool'', .next q)) :
    pool.Within pool'' := by
  have hmove := within_move E tokens pool' p token action
  rw [hm] at hmove
  exact h.trans hmove

lemma within_of_reaches (h : (E.parser tokens).Reaches tokens S T) : S.store.Within T.store :=
  h.shared_invariant (I := fun pool _ => S.store.Within pool)
    (fun token action hp _ => hp.trans (within_move _ _ _ _ token action)) (fun hp _ _ hm => Within.next hp hm)
    (fun _ _ => S.store.within_refl) T.path List.mem_cons_self

lemma run_store {fuel : Nat} {T' : State Nat Context FrontError Pool}
    (hrun : (E.parser tokens).run tokens fuel ((E.parser tokens).start {}) = (T', none))
    (h : (E.parser tokens).Reaches tokens ((E.parser tokens).start {}) S) :
    T'.store.Ordered ∧ S.store.Within T'.store := by
  constructor
  · obtain ⟨_, hordered, _⟩ := Parser.run_shared_invariant
      (fun token action hp hq => Stacked.move token action hp hq) (fun hp _ _ hm => hp.next hm) hrun h
      (stacked_of_reaches h)
    exact hordered
  · obtain ⟨_, hwithin⟩ := Parser.run_shared_invariant (I := fun pool _ => S.store.Within pool)
      (fun token action hp _ => hp.trans (within_move _ _ _ _ token action)) (fun hp _ _ hm => Within.next hp hm) hrun h
      (fun _ _ => S.store.within_refl)
    exact hwithin

lemma parse_treeEngine (E : FrontEnd) (tokens : Array Token) (pool : Pool) :
    let p := (E.parser tokens).parse {} pool tokens
    let q := (E.treeEngine tokens).parse {} () tokens
    p.result.map (List.map p.store.tree) = q.result ∧ p.stats = q.stats ∧ p.events = q.events := by
  obtain ⟨hresult, hstats, hevents⟩ := (treeEngine_follows E tokens).parse {} pool
  refine ⟨?_, hstats.symm, hevents.symm⟩
  rcases hresult with ⟨failure, hp, hq⟩ | ⟨roots, trees, hp, hq, hviews⟩
  · rw [hp, hq]
    rfl
  · rw [hp, hq, ← Pool.trees_eq hviews]
    rfl

lemma parseTokens_eq (E : FrontEnd) (tokens : Array Token) : E.parseTokens tokens = E.parseTrees tokens := by
  obtain ⟨hresult, hstats, _⟩ := parse_treeEngine E tokens {}
  rw [parseTokens, parseTrees, ← hresult, ← hstats]
  change _ = match (E.search tokens).result.map (List.map (E.search tokens).store.tree) with
    | .error f => _
    | .ok trees => _
  cases (E.search tokens).result <;> rfl

/-- The trees that are found do not show that they come from a shared pool: the search over trees
finds the same, whatever was in the pool before. In the pool children come before their
node, and no node changes. -/
theorem pool_invisible (E : FrontEnd) (tokens : Array Token) :
    E.parseTokens tokens = E.parseTrees tokens ∧
    (∀ pool : Pool, let p := (E.parser tokens).parse {} pool tokens
      let q := (E.treeEngine tokens).parse {} () tokens
      p.result.map (List.map p.store.tree) = q.result ∧ p.stats = q.stats ∧ p.events = q.events) ∧
    (∀ S, (E.parser tokens).Reaches tokens ((E.parser tokens).start {}) S → S.store.Ordered ∧
      ∀ T, (E.parser tokens).Reaches tokens S T → S.store.Within T.store) ∧
    ∀ roots, (E.search tokens).result = .ok roots → let pool := (E.search tokens).store
      pool.Ordered ∧
      (∀ id node production, pool.nodes[id]? = some node → node.kind = .nonterminal production →
        pool.tree id = .node production node.span node.annotations (node.children.map pool.tree)) ∧
      ∀ S, (E.parser tokens).Reaches tokens ((E.parser tokens).start {}) S → S.store.Within pool := by
  have hlockstep := parse_treeEngine E tokens
  refine ⟨parseTokens_eq E tokens, hlockstep, fun S hS => ?_, fun roots hroots => ?_⟩
  · exact ⟨(stacked_of_reaches hS S.path List.mem_cons_self).1, fun T hT => within_of_reaches hT⟩
  · have hne : tokens ≠ #[] := by
      rintro rfl
      cases hroots
    rcases Parser.parse_result (P := E.parser tokens) {} {} hne with ⟨_, failure, _, hr⟩ | ⟨T, hT, _, hstore⟩
    · rw [search, hr] at hroots
      cases hroots
    · rw [search, hstore]
      have hordered := (run_store hT .refl).1
      exact ⟨hordered, fun _ _ _ hn hk => hordered.tree_eq hn hk, fun S hS => (run_store hT hS).2⟩

end FrontEnd

end Ramify.C
