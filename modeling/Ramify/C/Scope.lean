import Ramify.Position

/-! Nested scopes of names. Declaring a name twice in one scope is allowed as long as its
kind stays the same; binding replaces whatever was there. -/

namespace Ramify.C

inductive NameKind where
  | typedef | ordinary
deriving DecidableEq

structure Binding where
  kind : NameKind
  span : Span
deriving DecidableEq

/-- The names of one scope, the latest binding first. -/
abbrev Frame := List (String × Binding)

/-- The innermost scope and those around it, the file scope last. -/
structure Scopes where
  inner : Frame := []
  outer : List Frame := []

namespace Scopes

def depth (s : Scopes) : Nat := s.outer.length + 1

def push (s : Scopes) : Scopes := ⟨[], s.inner :: s.outer⟩

def pop? (s : Scopes) : Option Scopes :=
  match s.outer with
  | [] => none
  | f :: outer => some ⟨f, outer⟩

def pop (s : Scopes) : Scopes := s.pop?.getD s

def lookup (s : Scopes) (name : String) : Option Binding :=
  (s.inner :: s.outer).findSome? (·.lookup name)

def lookupLocal (s : Scopes) (name : String) : Option Binding := s.inner.lookup name

def bind (s : Scopes) (name : String) (kind : NameKind) (span : Span) : Scopes :=
  { s with inner := (name, ⟨kind, span⟩) :: s.inner }

def declare (s : Scopes) (name : String) (kind : NameKind) (span : Span) :
    Except Binding Scopes :=
  match s.lookupLocal name with
  | some previous => if previous.kind = kind then .ok s else .error previous
  | none => .ok (s.bind name kind span)

end Scopes

end Ramify.C
