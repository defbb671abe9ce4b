/-! Nonnegative double-precision numbers, held by their bits and computed exactly: every
result is the nearest representable number to the true one, a tie going to the even
mantissa. -/

namespace Ramify

structure FloatFormat where
  precision : Nat
  leastExponent : Int

namespace FloatFormat

def double : FloatFormat := ⟨53, -1074⟩

def single : FloatFormat := ⟨24, -149⟩

end FloatFormat

def roundDiv (n d : Nat) : Nat :=
  let q := n / d
  let r := 2 * (n % d)
  if r < d then q else if d < r then q + 1 else q + q % 2

def scaleRatio (n d : Nat) (e : Int) : Nat × Nat :=
  if 0 ≤ e then (n * Nat.pow 2 e.toNat, d) else (n, d * Nat.pow 2 (-e).toNat)

/-- The number `m * 2 ^ e` of the format that is nearest to `n / d`, as `(m, e)`. The
exponent is unbounded above, and `m` may reach `2 ^ precision`. -/
def FloatFormat.round (f : FloatFormat) (n d : Nat) : Nat × Int :=
  let low : Int := (n.log2 : Int) - (d.log2 : Int) - (f.precision : Int)
  let (n', d') := scaleRatio n d (-low)
  let normal := if Nat.pow 2 f.precision ≤ n' / d' then low + 1 else low
  let e := max normal f.leastExponent
  let (n', d') := scaleRatio n d (-e)
  (roundDiv n' d', e)

structure Binary64 where
  bits : Nat
deriving DecidableEq

namespace Binary64

def zero : Binary64 := ⟨0⟩

def exponentUnit : Nat := 0x10000000000000

def infinity : Binary64 := ⟨0x7FF * exponentUnit⟩

def isFinite (x : Binary64) : Bool := x.bits < infinity.bits

def parts (x : Binary64) : Nat × Int :=
  let e := x.bits / exponentUnit
  let m := x.bits % exponentUnit
  if e = 0 then (m, -1074) else (m + exponentUnit, (e : Int) - 1075)

def ofRatio (n d : Nat) : Binary64 :=
  if n = 0 then zero
  else
    let (m, e) := FloatFormat.double.round n d
    ⟨min ((e + 1074).toNat * exponentUnit + m) infinity.bits⟩

def ofDecimal (digits : Nat) (e : Int) : Binary64 :=
  let size := e + (Nat.toDigits 10 digits).length
  if digits = 0 || size < -330 then zero
  else if 310 < size then infinity
  else if 0 ≤ e then ofRatio (digits * Nat.pow 10 e.toNat) 1
  else ofRatio digits (Nat.pow 10 (-e).toNat)

def shiftHex (x : Binary64) (digit : Nat) : Binary64 :=
  if !x.isFinite then infinity
  else
    let (m, e) := x.parts
    let (n, d) := scaleRatio m 1 e
    ofRatio (16 * n + digit * d) d

def scale (x : Binary64) (e : Int) : Binary64 :=
  if !x.isFinite || 1024 ≤ e then infinity
  else if e ≤ -1024 then zero
  else
    let (m, k) := x.parts
    let (n, d) := scaleRatio m 1 (k + e)
    ofRatio n d

def toSingle (x : Binary64) : Binary64 :=
  if !x.isFinite || x.bits = 0 then x
  else
    let (m, e) := x.parts
    let (n, d) := scaleRatio m 1 e
    let (m, e) := FloatFormat.single.round n d
    if 128 ≤ (m.log2 : Int) + e then infinity
    else
      let (n, d) := scaleRatio m 1 e
      ofRatio n d

end Binary64

end Ramify
