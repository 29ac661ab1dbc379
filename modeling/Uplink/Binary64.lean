/-! # Double-precision numbers, exactly

A finite double is a sign, a significand below `2 ^ 53` and a power of two. All arithmetic here
is on natural numbers: an operation forms the exact ratio and rounds it once, to the nearest
double, a half going to the even significand. `shortest` finds the fewest decimal digits that
read back as the same double. -/

namespace Uplink

/-- The magnitude `significand * 2 ^ exponent` under a sign. -/
structure Binary64 where
  negative : Bool
  significand : Nat
  exponent : Int
deriving DecidableEq, Inhabited

namespace Binary64

/-- The exponent shared by zero and the numbers below the normal range. -/
def minExponent : Int := -1074

/-- The exponent of the largest doubles. -/
def maxExponent : Int := 971

/-- The greatest `k` with `2 ^ k * den ≤ num`. -/
def floorLog2 (num den : Nat) : Int :=
  let k : Int := (num.log2 : Int) - den.log2
  let reached :=
    if 0 ≤ k then den <<< k.toNat ≤ num else den ≤ num <<< (-k).toNat
  if reached then k else k - 1

/-- The magnitude nearest to `num / den`, a tie going to the even significand, or nothing when it
lies beyond the largest double. -/
def roundRatio (num den : Nat) : Option (Nat × Int) :=
  if num = 0 then some (0, minExponent)
  else
    let e := max minExponent (floorLog2 num den - 52)
    let n := if 0 ≤ e then num else num <<< (-e).toNat
    let d := if 0 ≤ e then den <<< e.toNat else den
    let q := n / d
    let r := n % d
    let q := if d < 2 * r || (2 * r = d && q % 2 = 1) then q + 1 else q
    let rounded := if q = 0x20000000000000 then (0x10000000000000, e + 1) else (q, e)
    if maxExponent < rounded.2 then none else some rounded

def ratio (x : Binary64) : Nat × Nat :=
  if 0 ≤ x.exponent then (x.significand <<< x.exponent.toNat, 1)
  else (x.significand, 1 <<< (-x.exponent).toNat)

/-- The double nearest to a signed ratio. -/
def ofRatio? (negative : Bool) (num den : Nat) : Option Binary64 :=
  (roundRatio num den).map fun (m, e) => ⟨negative, m, e⟩

def zero (negative : Bool) : Binary64 :=
  ⟨negative, 0, minExponent⟩

def isZero (x : Binary64) : Bool :=
  x.significand = 0

/-- Equality of values: the two zeros are equal. -/
def sameValue (x y : Binary64) : Bool :=
  (x.isZero && y.isZero) || x = y

/-- The product, rounded once. -/
def mul? (x y : Binary64) : Option Binary64 :=
  ofRatio? (x.negative != y.negative) (x.ratio.1 * y.ratio.1) (x.ratio.2 * y.ratio.2)

/-- The quotient by a divisor other than zero, rounded once. -/
def div? (x y : Binary64) : Option Binary64 :=
  ofRatio? (x.negative != y.negative) (x.ratio.1 * y.ratio.2) (x.ratio.2 * y.ratio.1)

/-- The double nearest to a power of ten, up to the largest one. -/
def powerOfTen (k : Nat) : Binary64 :=
  (ofRatio? false (Nat.pow 10 k) 1).getD (zero false)

/-! ## Shortest decimal form -/

/-- The numbers that round to a magnitude: between `low / unit` and `high / unit`, the ends
included when the significand is even. `value / unit` is the magnitude itself. -/
structure Interval where
  low : Nat
  value : Nat
  high : Nat
  unit : Nat
  closed : Bool

/-- The interval of a magnitude. Just above a power of two the gap below is half as wide. -/
def interval (m : Nat) (e : Int) : Interval :=
  let narrow := m = 0x10000000000000 && minExponent < e
  let scale (n : Nat) : Nat := if 0 ≤ e then n <<< e.toNat else n
  let unit := if 0 ≤ e then 4 else 4 <<< (-e).toNat
  ⟨scale (if narrow then 4 * m - 1 else 4 * m - 2), scale (4 * m), scale (4 * m + 2), unit,
    m % 2 = 0⟩

/-- Whether the decimal `d * 10 ^ p` lies in the interval. -/
def Interval.holds (i : Interval) (d : Nat) (p : Int) : Bool :=
  let point := if 0 ≤ p then d * Nat.pow 10 p.toNat * i.unit else d * i.unit
  let scale := if 0 ≤ p then 1 else Nat.pow 10 (-p).toNat
  if i.closed then i.low * scale ≤ point && point ≤ i.high * scale
  else i.low * scale < point && point < i.high * scale

/-- The decimal on the grid of step `10 ^ p` that lies in the interval, the nearer of the value's
two neighbours when both do, the even one on a tie. -/
def Interval.onGrid? (i : Interval) (p : Int) : Option Nat :=
  let num := if 0 ≤ p then i.value else i.value * Nat.pow 10 (-p).toNat
  let den := if 0 ≤ p then i.unit * Nat.pow 10 p.toNat else i.unit
  let below := num / den
  let rest := num % den
  let inBelow := i.holds below p
  let inAbove := i.holds (below + 1) p
  if inBelow && inAbove then
    if 2 * rest < den || (2 * rest = den && below % 2 = 0) then some below else some (below + 1)
  else if inBelow then some below
  else if inAbove then some (below + 1)
  else none

/-- The greatest `k` with `10 ^ k * den ≤ num`, searched downward from `start`. -/
def floorLog10From (num den : Nat) (start : Int) : Nat → Int
  | 0 => start
  | steps + 1 =>
    let reached :=
      if 0 ≤ start then den * Nat.pow 10 start.toNat ≤ num
      else den ≤ num * Nat.pow 10 (-start).toNat
    if reached then start else floorLog10From num den (start - 1) steps

/-- The greatest `k` with `10 ^ k * den ≤ num`: the binary logarithm gives a start at most two
steps too high. -/
def floorLog10 (num den : Nat) : Int :=
  floorLog10From num den (floorLog2 num den * 30103 / 100000 + 1) 3

/-- A number without its trailing zeros, and how many there were. At most `steps` are removed. -/
def dropZeros (n : Nat) : Nat → Nat × Nat
  | 0 => (n, 0)
  | steps + 1 =>
    if n % 10 = 0 && n ≠ 0 then
      let (n, zeros) := dropZeros (n / 10) steps
      (n, zeros + 1)
    else (n, 0)

/-- The first grid with a decimal in the interval, from `digits` digits on. -/
def shortestFrom (i : Interval) (top : Int) (digits : Nat) : Nat → Nat × Int
  | 0 => (i.value / i.unit, 0)
  | steps + 1 =>
    let p := top - (digits : Int) + 1
    match i.onGrid? p with
    | some d =>
      let (d, zeros) := dropZeros d 20
      (d, p + zeros)
    | none => shortestFrom i top (digits + 1) steps

/-- Digits and power of ten of the shortest decimal that reads back as the magnitude, for a
significand other than zero: one digit is tried, then two, and seventeen always suffice. -/
def shortest (x : Binary64) : Nat × Int :=
  let i := interval x.significand x.exponent
  shortestFrom i (floorLog10 i.value i.unit) 1 17

end Binary64

end Uplink
