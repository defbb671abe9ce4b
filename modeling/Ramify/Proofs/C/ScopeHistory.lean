import Ramify.Proofs.C.ScopeKinds
import Mathlib

/-! What scopes answer, told by the operations that made them. Each open scope has a history of what
was bound and declared while it was the innermost one. A name has its last binding there, or else
that of its first declaration; what happens in a scope that is closed again leaves no trace. -/

namespace Ramify.C

inductive ScopeOperation where
  | push
  | pop
  | bind (name : String) (kind : NameKind) (span : Span)
  | declare (name : String) (kind : NameKind) (span : Span)

namespace ScopeOperation

def bound? (name : String) : ScopeOperation → Option Binding
  | .bind key kind span => if key = name then some ⟨kind, span⟩ else none
  | _ => none

def declared? (name : String) : ScopeOperation → Option Binding
  | .declare key kind span => if key = name then some ⟨kind, span⟩ else none
  | _ => none

/-- What a history says of a name: the last binding, or else the first declaration. -/
def answer (name : String) (history : List ScopeOperation) : Option Binding :=
  (history.reverse.findSome? (bound? name)).or (history.findSome? (declared? name))

end ScopeOperation

open ScopeOperation

structure ScopeHistory where
  inner : List ScopeOperation := []
  outer : List (List ScopeOperation) := []

namespace ScopeHistory

def note (h : ScopeHistory) : ScopeOperation → ScopeHistory
  | .push => ⟨[], h.inner :: h.outer⟩
  | .pop =>
    match h.outer with
    | [] => h
    | f :: outer => ⟨f, outer⟩
  | op => { h with inner := h.inner ++ [op] }

def ofOperations (ops : List ScopeOperation) : ScopeHistory := ops.foldl note {}

def scopes (h : ScopeHistory) : List (List ScopeOperation) := h.inner :: h.outer

end ScopeHistory

namespace Scopes

def perform (s : Scopes) : ScopeOperation → Scopes
  | .push => s.push
  | .pop => s.pop
  | .bind name kind span => s.bind name kind span
  | .declare name kind span => (s.declare name kind span).toOption.getD s

def performAll (s : Scopes) (ops : List ScopeOperation) : Scopes := ops.foldl perform s

def declareEach (s : Scopes) (names : List (String × NameKind × Span)) : Except Binding Scopes :=
  names.foldlM (fun s (name, kind, span) => s.declare name kind span) s

section Answers

variable {history : List ScopeOperation} {name key : String} {kind : NameKind} {span : Span}

lemma answer_bind (history : List ScopeOperation) (key : String) (kind : NameKind) (span : Span) (name : String) :
    answer name (history ++ [.bind key kind span]) = if name = key then some ⟨kind, span⟩ else answer name history := by
  rw [answer, List.reverse_append, List.findSome?_append, List.findSome?_append]
  by_cases h : name = key
  · simp [h, bound?]
  · simp [bound?, declared?, answer, h, Ne.symm h]

lemma answer_declare (history : List ScopeOperation) (key : String) (kind : NameKind) (span : Span) (name : String) :
    answer name (history ++ [.declare key kind span]) =
      (answer name history).or (if name = key then some ⟨kind, span⟩ else none) := by
  rw [answer, List.reverse_append, List.findSome?_append, List.findSome?_append, answer, Option.or_assoc]
  by_cases h : name = key
  · simp [h, bound?, declared?]
  · simp [bound?, declared?, h, Ne.symm h]

def Answers (frame : Frame) (history : List ScopeOperation) : Prop := ∀ name, frame.lookup name = answer name history

lemma answers_empty : Answers [] [] := fun _ => rfl

lemma Answers.bind {frame : Frame} (h : Answers frame history) (key : String) (kind : NameKind) (span : Span) :
    Answers ((key, ⟨kind, span⟩) :: frame) (history ++ [.bind key kind span]) := by
  intro name
  rw [answer_bind, List.lookup_cons, h name]
  by_cases hn : name = key
  · rw [if_pos hn, hn, BEq.rfl]
  · rw [if_neg hn, beq_false_of_ne hn]

lemma Answers.declare_new {frame : Frame} (h : Answers frame history) (hkey : frame.lookup key = none) (kind : NameKind)
    (span : Span) : Answers ((key, ⟨kind, span⟩) :: frame) (history ++ [.declare key kind span]) := by
  intro name
  rw [answer_declare, List.lookup_cons, ← h name]
  by_cases hn : name = key
  · rw [if_pos hn, hn, BEq.rfl, hkey]
    rfl
  · rw [if_neg hn, beq_false_of_ne hn, Option.or_none]

lemma Answers.declare_known {frame : Frame} (h : Answers frame history) {b : Binding} (hkey : frame.lookup key = some b)
    (kind : NameKind) (span : Span) : Answers frame (history ++ [.declare key kind span]) := by
  intro name
  rw [answer_declare, ← h name]
  by_cases hn : name = key
  · rw [hn, hkey]
    rfl
  · rw [if_neg hn, Option.or_none]

structure Follows (s : Scopes) (h : ScopeHistory) : Prop where
  inner : Answers s.inner h.inner
  outer : List.Forall₂ Answers s.outer h.outer

lemma Follows.perform {s : Scopes} {h : ScopeHistory} (hs : s.Follows h) (op : ScopeOperation) :
    (s.perform op).Follows (h.note op) := by
  obtain ⟨hinner, houter⟩ := hs
  obtain ⟨inner, outer⟩ := s
  obtain ⟨history, histories⟩ := h
  cases op with
  | push => exact ⟨answers_empty, .cons hinner houter⟩
  | pop =>
    cases houter with
    | nil => exact ⟨hinner, .nil⟩
    | cons hfirst hrest => exact ⟨hfirst, hrest⟩
  | bind key kind span => exact ⟨hinner.bind key kind span, houter⟩
  | declare key kind span =>
    rw [Scopes.perform, Scopes.declare, lookupLocal]
    cases hkey : List.lookup key inner with
    | none => exact ⟨hinner.declare_new hkey kind span, houter⟩
    | some b =>
      have hknown : (⟨inner, outer⟩ : Scopes).Follows
          (ScopeHistory.note ⟨history, histories⟩ (.declare key kind span)) :=
        ⟨hinner.declare_known hkey kind span, houter⟩
      dsimp only
      split
      · exact hknown
      · exact hknown

lemma follows_performAll (ops : List ScopeOperation) : (performAll {} ops).Follows (.ofOperations ops) := by
  induction ops using List.reverseRecOn with
  | nil => exact ⟨answers_empty, .nil⟩
  | append_singleton ops op ih =>
    rw [performAll, ScopeHistory.ofOperations, List.foldl_append, List.foldl_append]
    exact ih.perform op

lemma findSome?_forall₂ {α β γ : Type} {f : α → Option γ} {g : β → Option γ} {l : List α} {l' : List β}
    (h : List.Forall₂ (fun a b => f a = g b) l l') : l.findSome? f = l'.findSome? g := by
  induction h with
  | nil => rfl
  | cons hab _ ih => rw [List.findSome?_cons, List.findSome?_cons, hab, ih]

lemma Follows.lookup {s : Scopes} {h : ScopeHistory} (hs : s.Follows h) (name : String) :
    s.lookup name = h.scopes.findSome? (answer name) :=
  findSome?_forall₂ (.cons (hs.inner name) (hs.outer.imp fun _ _ hframe => hframe name))

end Answers

section Enclosed

variable {s : Scopes} {ops : List ScopeOperation}

lemma depth_eq (s : Scopes) : s.depth = s.outer.length + 1 := rfl

structure Enclosed (s : Scopes) (ops : List ScopeOperation) : Prop where
  stays : ∀ front, front <+: ops → s.depth ≤ (s.performAll front).depth
  returns : (s.performAll ops).depth = s.depth

lemma outer_declare (s : Scopes) (name : String) (kind : NameKind) (span : Span) :
    (s.perform (.declare name kind span)).outer = s.outer := by
  rw [perform, declare]
  split
  · split <;> rfl
  · rfl

lemma outer_suffix (h : ∀ front, front <+: ops → s.depth ≤ (s.performAll front).depth) :
    s.outer <:+ (s.performAll ops).outer := by
  induction ops using List.reverseRecOn with
  | nil => exact List.suffix_rfl
  | append_singleton ops op ih =>
    have hsuffix := ih fun front hfront => h front (hfront.trans (List.prefix_append ops [op]))
    have hdepth := h _ List.prefix_rfl
    have hlast : s.performAll (ops ++ [op]) = (s.performAll ops).perform op := by
      rw [performAll, List.foldl_append]
      rfl
    rw [hlast, depth_eq, depth_eq, Nat.add_le_add_iff_right] at hdepth
    rw [hlast]
    generalize s.performAll ops = t at *
    cases op with
    | push => exact hsuffix.trans (List.suffix_cons t.inner t.outer)
    | bind => exact hsuffix
    | declare name kind span => rwa [outer_declare]
    -- The depth allows only a scope to be closed that has been opened since.
    | pop =>
      refine List.suffix_of_suffix_length_le hsuffix ?_ hdepth
      obtain ⟨inner, _ | ⟨frame, outer⟩⟩ := t
      · exact List.suffix_rfl
      · exact List.suffix_cons frame outer

lemma pop_of_enclosed (h : s.push.Enclosed ops) : (s.push.performAll ops).pop = s := by
  have houter := outer_suffix h.stays
  have hreturns := h.returns
  rw [depth_eq, depth_eq, Nat.add_right_cancel_iff] at hreturns
  have heq := houter.eq_of_length hreturns.symm
  rw [pop, pop?, ← heq]
  rfl

end Enclosed

section Declarations

variable {s s' : Scopes} {name : String} {kind : NameKind} {span : Span}

lemma exists_declare_ok : (∃ s', s.declare name kind span = .ok s') ↔ ∀ k, s.local? name = some k → kind = k := by
  rw [declare, local?]
  cases s.lookupLocal name with
  | none => simp
  | some previous =>
    dsimp only
    split <;> simp_all [eq_comm]

lemma exists_declare_error : (∃ b, s.declare name kind span = .error b) ↔
    ∃ b, s.lookupLocal name = some b ∧ b.kind ≠ kind := by
  rw [declare]
  cases s.lookupLocal name with
  | none => simp
  | some previous =>
    dsimp only
    split <;> simp_all

lemma local?_of_declare (h : s.declare name kind span = .ok s') (key : String) :
    s'.local? key = if key = name then some kind else s.local? key := by
  obtain ⟨rfl, hk⟩ | ⟨rfl, _⟩ := declare_ok h
  · split
    · rename_i hkey
      rw [hkey, hk]
    · rfl
  · rw [local?_bind]

def Consistent (names : List (String × NameKind × Span)) : Prop :=
  ∀ d ∈ names, ∀ d' ∈ names, d.1 = d'.1 → d.2.1 = d'.2.1

lemma Consistent.perm {names names' : List (String × NameKind × Span)} (h : names.Perm names') :
    Consistent names ↔ Consistent names' := by
  simp only [Consistent, h.mem_iff]

lemma exists_declareEach (s : Scopes) (names : List (String × NameKind × Span)) :
    (∃ s', s.declareEach names = .ok s') ↔
      (∀ d ∈ names, ∀ k, s.local? d.1 = some k → d.2.1 = k) ∧ Consistent names := by
  induction names generalizing s with
  | nil => exact iff_of_true ⟨s, rfl⟩ ⟨nofun, nofun⟩
  | cons d names ih =>
    obtain ⟨name, kind, span⟩ := d
    have hstep : s.declareEach ((name, kind, span) :: names) =
        (s.declare name kind span).bind (·.declareEach names) := rfl
    rw [hstep]
    cases hd : s.declare name kind span with
    | error b =>
      have hnot : ¬ ∃ s', s.declare name kind span = .ok s' := by simp [hd]
      rw [exists_declare_ok] at hnot
      refine iff_of_false (fun ⟨_, he⟩ => by cases he) fun h => hnot (h.1 _ List.mem_cons_self)
    | ok s₁ =>
      have hlocal := exists_declare_ok.mp ⟨s₁, hd⟩
      refine (ih s₁).trans ?_
      simp only [local?_of_declare hd, Consistent, List.forall_mem_cons]
      constructor
      · rintro ⟨hs₁, hnames⟩
        refine ⟨⟨hlocal, fun d hmem k hk => ?_⟩, ⟨fun _ => trivial, fun d hmem he => ?_⟩,
          fun d hmem => ⟨fun he => ?_, hnames d hmem⟩⟩
        · by_cases he : d.1 = name
          · have hkind := hs₁ d hmem kind (if_pos he)
            exact hkind.trans (hlocal k (he ▸ hk))
          · exact hs₁ d hmem k (by rw [if_neg he, hk])
        · exact (hs₁ d hmem kind (if_pos he.symm)).symm
        · exact hs₁ d hmem kind (if_pos he)
      · rintro ⟨⟨_, hs⟩, ⟨_, hfirst⟩, hnames⟩
        refine ⟨fun d hmem k hk => ?_, fun d hmem => (hnames d hmem).2⟩
        split at hk
        · rename_i he
          obtain rfl := Option.some.inj hk
          exact (hfirst d hmem he.symm).symm
        · exact hs d hmem k hk

end Declarations

theorem lookup_of_history (ops : List ScopeOperation) :
    let s := performAll {} ops
    let histories := (ScopeHistory.ofOperations ops).scopes
    1 ≤ s.depth ∧ s.depth = histories.length ∧
    (∀ name, s.lookup name = histories.findSome? (answer name)) ∧
    (∀ name kind span, (∃ previous, s.declare name kind span = .error previous) ↔
      ∃ b, histories.head?.bind (answer name) = some b ∧ b.kind ≠ kind) ∧
    (∀ name kind span previous, s.declare name kind span = .error previous →
      performAll {} (ops ++ [.declare name kind span]) = s) ∧
    (∀ inner, s.push.Enclosed inner → performAll {} (ops ++ .push :: inner ++ [.pop]) = s) ∧
    ∀ fresh, fresh = s.push ∨ fresh = {} → ∀ names,
      ((∃ s', fresh.declareEach names = .ok s') ↔ Consistent names) ∧
      ∀ names', names.Perm names' →
        ((∃ s', fresh.declareEach names = .ok s') ↔ ∃ s', fresh.declareEach names' = .ok s') := by
  intro s histories
  have hs : s.Follows (.ofOperations ops) := follows_performAll ops
  have hfresh : ∀ fresh, fresh = s.push ∨ fresh = {} → ∀ names,
      (∃ s', fresh.declareEach names = .ok s') ↔ Consistent names := by
    rintro fresh hfresh names
    have hlocal : ∀ name, fresh.local? name = none := by rcases hfresh with rfl | rfl <;> exact fun _ => rfl
    rw [exists_declareEach]
    exact and_iff_right fun d _ k hk => by simp [hlocal] at hk
  refine ⟨Nat.le_add_left 1 _, ?_, hs.lookup, fun name kind span => ?_, fun name kind span previous he => ?_,
    fun inner hinner => ?_, fun fresh h names => ⟨hfresh fresh h names, fun names' hperm => ?_⟩⟩
  · exact congrArg Nat.succ hs.outer.length_eq
  · rw [exists_declare_error, lookupLocal, hs.inner name]
    rfl
  · rw [performAll, List.foldl_append, List.foldl_cons, List.foldl_nil, perform]
    exact congrArg (fun r => r.toOption.getD s) he
  · have hpop := pop_of_enclosed hinner
    rwa [performAll, List.foldl_append, List.foldl_append]
  · rw [hfresh fresh h, hfresh fresh h, Consistent.perm hperm]

example : ∃ s, performAll {} [.declare "a" .ordinary {}, .push, .bind "a" .typedef {}, .pop] = s ∧
    (s.lookup "a").map Binding.kind = some .ordinary ∧ (s.declare "a" .typedef {}).toOption.isNone = true :=
  ⟨_, rfl, rfl, rfl⟩

end Scopes

end Ramify.C
