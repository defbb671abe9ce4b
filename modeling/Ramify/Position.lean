namespace Ramify

structure Position where
  line : Nat := 1
  column : Nat := 1
deriving DecidableEq, Inhabited

namespace Position

instance : Ord Position where
  compare p q := (compare p.line q.line).then (compare p.column q.column)

instance : LE Position := leOfOrd

instance : LT Position := ltOfOrd

def text (p : Position) : String := s!"{p.line}:{p.column}"

def after (p : Position) (b : UInt8) : Position :=
  if b = 10 then ⟨p.line + 1, 1⟩ else ⟨p.line, p.column + 1⟩

end Position

structure Span where
  start : Position := {}
  stop : Position := {}
deriving DecidableEq, Inhabited

namespace Span

instance : Ord Span where
  compare s t := (compare s.start t.start).then (compare s.stop t.stop)

def point (p : Position) : Span := ⟨p, p⟩

def merge (s t : Span) : Span where
  start := if s.start ≤ t.start then s.start else t.start
  stop := if t.stop ≤ s.stop then s.stop else t.stop

def isEmpty (s : Span) : Bool := s.start == s.stop

def lines (s : Span) : Nat × Nat := (s.start.line, s.stop.line)

def text (s : Span) : String := s!"{s.start.text}-{s.stop.text}"

end Span

end Ramify
