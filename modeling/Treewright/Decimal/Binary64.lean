set_option autoImplicit false

namespace Treewright.Decimal

def twoTo (k : Nat) : Nat := Nat.pow 2 k

def tenTo (k : Nat) : Nat := Nat.pow 10 k

theorem twoTo_pos (k : Nat) : 0 < twoTo k := Nat.pow_pos (by decide)

theorem tenTo_pos (k : Nat) : 0 < tenTo k := Nat.pow_pos (by decide)

/-- A 64-bit binary floating-point number, known by its bits. -/
structure Binary64 where
  bits : UInt64
  deriving DecidableEq, Repr, Inhabited

namespace Binary64

def negative (x : Binary64) : Bool := twoTo 63 ≤ x.bits.toNat

def exponentField (x : Binary64) : Nat := x.bits.toNat / twoTo 52 % twoTo 11

def fraction (x : Binary64) : Nat := x.bits.toNat % twoTo 52

def isFinite (x : Binary64) : Bool := x.exponentField ≠ 2047

def isNaN (x : Binary64) : Bool := x.exponentField = 2047 && x.fraction ≠ 0

def significand (x : Binary64) : Nat :=
  if x.exponentField = 0 then x.fraction else twoTo 52 + x.fraction

def scale (x : Binary64) : Int :=
  if x.exponentField = 0 then -1074 else (x.exponentField : Int) - 1075

def isZero (x : Binary64) : Bool := x.isFinite && x.significand = 0

def ratio (x : Binary64) : Nat × Nat :=
  (x.significand * twoTo x.scale.toNat, twoTo (-x.scale).toNat)

theorem ratio_den_pos (x : Binary64) : 0 < x.ratio.2 := twoTo_pos _

def truncate (x : Binary64) : Int :=
  let n := x.ratio.1 / x.ratio.2
  if x.negative then -(n : Int) else n

def whole? (x : Binary64) : Option Int :=
  if x.isFinite && x.ratio.1 % x.ratio.2 = 0 then some x.truncate else none

def infinite (negative : Bool) : Binary64 :=
  ⟨UInt64.ofNat ((if negative then twoTo 63 else 0) + 2047 * twoTo 52)⟩

def nan : Binary64 := ⟨UInt64.ofNat (2047 * twoTo 52 + twoTo 51)⟩

/-- The quotient rounded to the nearest natural, a half to the even one. -/
def roundDiv (num den : Nat) : Nat :=
  let n := num / den
  let r := num % den
  if den < 2 * r || (2 * r = den && n % 2 = 1) then n + 1 else n

def ratioLog (num den : Nat) : Int :=
  let k : Int := (num.log2 : Int) - den.log2
  if num * twoTo (-k).toNat < den * twoTo k.toNat then k - 1 else k

/-- The nearest number to a ratio; beyond the largest one it is infinite. -/
def ofRatio (negative : Bool) (num den : Nat) : Binary64 :=
  let sign := if negative then twoTo 63 else 0
  if num = 0 then ⟨UInt64.ofNat sign⟩
  else
    let q := max (-1074) (ratioLog num den - 52)
    let m := roundDiv (num * twoTo (-q).toNat) (den * twoTo q.toNat)
    let field := (q + 1074).toNat * twoTo 52 + m
    if 2047 * twoTo 52 ≤ field then infinite negative else ⟨UInt64.ofNat (sign + field)⟩

/-- The nearest number to `digits * 10 ^ exponent`. Out of the range of all finite numbers the
powers are not computed. -/
def ofDecimal (negative : Bool) (digits : Nat) (exponent : Int) : Binary64 :=
  let top := (Nat.toDigits 10 digits).length + exponent
  if digits = 0 || top < -330 then ofRatio negative 0 1
  else if 330 < top then infinite negative
  else ofRatio negative (digits * tenTo exponent.toNat) (tenTo (-exponent).toNat)

end Binary64
end Treewright.Decimal
