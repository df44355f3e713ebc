import Treewright.Decimal.Binary64
set_option autoImplicit false

namespace Treewright.Decimal

structure Scientific where
  digits : Nat
  exponent : Int
  deriving DecidableEq, Repr, Inhabited

/-- The whole part of the decimal logarithm of a positive ratio above `10 ^ -400`. -/
def decimalLog (num den : Nat) : Int :=
  if den ≤ num then ((Nat.toDigits 10 (num / den)).length : Int) - 1
  else -(((List.range 400).find? fun k => den ≤ num * tenTo k).getD 400 : Nat)

/-- The numbers that read back as `m * 2 ^ q`, over the common denominator `4 * den`: their ends,
and whether the ends belong to them. Below a power of two the gap is half as wide. -/
structure Interval where
  low : Nat
  high : Nat
  closed : Bool

def interval (x : Binary64) : Interval :=
  let unit := twoTo x.scale.toNat
  let four := 4 * x.ratio.1
  let below := if x.fraction = 0 && 1 < x.exponentField then unit else 2 * unit
  ⟨four - below, four + 2 * unit, x.significand % 2 = 0⟩

/-- Whether `n * 10 ^ e` reads back as the number whose interval this is. -/
def Interval.holds (i : Interval) (den : Nat) (n : Nat) (e : Int) : Bool :=
  let value := 4 * n * tenTo e.toNat * den
  let scale := tenTo (-e).toNat
  if i.closed then i.low * scale ≤ value && value ≤ i.high * scale
  else i.low * scale < value && value < i.high * scale

/-- The better of the two neighbours of a ratio on the grid of multiples of `10 ^ e`, if one of
them reads back: the nearer one, of two equally near the even one. -/
def onGrid (x : Binary64) (e : Int) : Option Scientific :=
  let (num, den) := x.ratio
  let i := interval x
  let top := num * tenTo (-e).toNat
  let step := den * tenTo e.toNat
  let n := top / step
  let r := top % step
  let down := i.holds den n e
  let up := i.holds den (n + 1) e
  if down && (!up || 2 * r < step || (2 * r = step && n % 2 = 0)) then some ⟨n, e⟩
  else if up then some ⟨n + 1, e⟩
  else none

def trimZeros : Nat → Scientific → Scientific
  | 0, s => s
  | fuel + 1, s =>
    if s.digits ≠ 0 && s.digits % 10 = 0 then trimZeros fuel ⟨s.digits / 10, s.exponent + 1⟩ else s

def shortest (x : Binary64) : Scientific :=
  if x.significand = 0 then ⟨0, 0⟩
  else
    let log := decimalLog x.ratio.1 x.ratio.2
    let found := (List.range 17).findSome? fun (k : Nat) => onGrid x (log - k)
    trimZeros 17 (found.getD ⟨0, 0⟩)

/-- Powers of ten from `10 ^ -4` up to `10 ^ 16` are written out, and a whole number keeps one zero
after the point. Elsewhere an exponent has its sign and at least two digits. -/
def Scientific.written (s : Scientific) : String :=
  let ds := Nat.toDigits 10 s.digits
  let e := s.exponent + ds.length - 1
  if -4 ≤ e && e < 16 then
    if e < 0 then
      String.ofList ('0' :: '.' :: List.replicate (-e - 1).toNat '0' ++ ds)
    else
      let whole := e.toNat + 1
      let front := ds.take whole ++ List.replicate (whole - ds.length) '0'
      let back := ds.drop whole
      String.ofList (front ++ '.' :: (if back.isEmpty then ['0'] else back))
  else
    let back := ds.drop 1
    let power := Nat.toDigits 10 e.natAbs
    let power := List.replicate (2 - power.length) '0' ++ power
    String.ofList (ds.take 1 ++ (if back.isEmpty then [] else '.' :: back) ++
      'e' :: (if e < 0 then '-' else '+') :: power)

def Binary64.text (x : Binary64) : String :=
  if x.isNaN then "nan"
  else
    let sign := if x.negative then "-" else ""
    sign ++ (if x.isFinite then (shortest x).written else "inf")

end Treewright.Decimal
