import Ramify.Position

/-! Reading a byte string from left to right. A cursor stands between the bytes it has read
and those still to come, and knows its offset and its position. Cursors are values, so an
earlier cursor serves as a mark to go back to. -/

namespace Ramify

structure Cursor where
  past : List UInt8 := []
  rest : List UInt8
  offset : Nat := 0
  position : Position := {}
deriving DecidableEq

namespace Cursor

def ofBytes (source : List UInt8) : Cursor := { rest := source }

def peek? (c : Cursor) : Option UInt8 := c.rest.head?

def ahead? (c : Cursor) (n : Nat) : Option UInt8 := c.rest[n]?

/-- The byte at a distance, which is a word of 64 bits and wraps around: the greatest
distance leads to the byte just read, and the complement of `n` to the one `n` places
before that. -/
def peekAt? (c : Cursor) (distance : UInt64) : Option UInt8 :=
  c.past[(~~~distance).toNat]?.or (c.ahead? distance.toNat)

def atEnd (c : Cursor) : Bool := c.rest.isEmpty

def advance (c : Cursor) : Cursor :=
  match c.rest with
  | [] => c
  | b :: rest => ⟨b :: c.past, rest, c.offset + 1, c.position.after b⟩

def skip (c : Cursor) : Nat → Cursor
  | 0 => c
  | n + 1 => if c.atEnd then c else c.advance.skip n

theorem rest_skip (c : Cursor) (n : Nat) : (c.skip n).rest = c.rest.drop n := by
  induction n generalizing c with
  | zero => simp [skip]
  | succ n ih =>
    cases h : c.rest <;> simp [skip, atEnd, h, ih, advance]

def skipWhile (c : Cursor) (p : UInt8 → Bool) : Cursor :=
  c.skip (c.rest.takeWhile p).length

def spanTo (mark c : Cursor) : Span := ⟨mark.position, c.position⟩

def sliceTo? (mark c : Cursor) : Option (List UInt8) :=
  if mark.offset ≤ c.offset then some (mark.rest.take (c.offset - mark.offset)) else none

def sliceTo (mark c : Cursor) : List UInt8 := mark.rest.take (c.offset - mark.offset)

end Cursor

end Ramify
