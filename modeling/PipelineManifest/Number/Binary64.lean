/-!
# `PipelineManifest.Number.Binary64`: binary floating-point numbers, exactly

A number of the 64-bit binary format is held by its value: a sign, a whole significand and a
power of two. All arithmetic is exact arithmetic on whole numbers followed by one rounding to
the nearest representable number, a tie going to the even significand.

* `Binary64`: the numbers, with the two infinities and not-a-number.
* `Binary64.Canonical`: a significand uses all 53 bits unless the exponent is the least one,
  so each finite number has one representation.
* `Binary64.ofRatio`: the nearest number to a quotient.
* `Binary64.ratio?`: the exact value of a finite number.
* `Binary64.add`, `Binary64.mul`: sum and product.
-/

set_option autoImplicit false

namespace PipelineManifest.Number

/-- A number of the 64-bit binary format. `finite s m e` is `m * 2 ^ e`, negated if `s`. -/
inductive Binary64 where
  | nan
  | infinity (negative : Bool)
  | finite (negative : Bool) (significand : Nat) (exponent : Int)
  deriving DecidableEq, Repr, Inhabited

namespace Binary64

/-- The least exponent of a significand. -/
def minExponent : Int := -1074

/-- The largest exponent of a significand. -/
def maxExponent : Int := 971

/-- The form in which every finite number has exactly one representation. -/
def Canonical : Binary64 → Prop
  | finite _ m e =>
    m < Nat.pow 2 53 ∧ minExponent ≤ e ∧ e ≤ maxExponent ∧
      (Nat.pow 2 52 ≤ m ∨ e = minExponent)
  | _ => True

/-- Zero without a sign. -/
def zero : Binary64 := finite false 0 minExponent

/-- The quotient `num / den` rounded to a whole number, a half going to the even neighbour. -/
def roundHalfEven (num den : Nat) : Nat :=
  let q := num / den
  let r := num % den
  if 2 * r < den then q
  else if den < 2 * r then q + 1
  else if q % 2 = 0 then q else q + 1

/-- `num / den / 2 ^ e` as a quotient of whole numbers. -/
def scaled (num den : Nat) (e : Int) : Nat × Nat :=
  if 0 ≤ e then (num, den * Nat.pow 2 e.toNat) else (num * Nat.pow 2 (-e).toNat, den)

/-- The exponent at which the quotient `num / den` has a significand of 53 bits, or the least
exponent where it has fewer. -/
def exponentFor (num den : Nat) : Int :=
  let low := (num.log2 : Int) - den.log2 - 53
  let (n, d) := scaled num den low
  max minExponent (if Nat.pow 2 53 ≤ n / d then low + 1 else low)

/-- The number nearest to `num / den`, with the given sign. -/
def ofRatio (negative : Bool) (num den : Nat) : Binary64 :=
  if num = 0 || den = 0 then finite negative 0 minExponent
  else
    let e := exponentFor num den
    let (n, d) := scaled num den e
    let m := roundHalfEven n d
    -- Rounding up may take one bit too many, and then the last one is zero.
    let (m, e) := if m = Nat.pow 2 53 then (Nat.pow 2 52, e + 1) else (m, e)
    if maxExponent < e then infinity negative else finite negative m e

/-- The exact value of a finite number, as a whole numerator over a positive denominator. -/
def ratio? : Binary64 → Option (Int × Nat)
  | finite s m e =>
    let magnitude : Nat := if 0 ≤ e then m * Nat.pow 2 e.toNat else m
    let den : Nat := if 0 ≤ e then 1 else Nat.pow 2 (-e).toNat
    some (if s then -(magnitude : Int) else magnitude, den)
  | _ => none

/-- The sign, with that of zero included; not-a-number counts as positive. -/
def isNegative : Binary64 → Bool
  | nan => false
  | infinity s => s
  | finite s _ _ => s

/-- Whether the number is zero of either sign. -/
def isZero : Binary64 → Bool
  | finite _ 0 _ => true
  | _ => false

/-- The whole number that a number is, if it is one. -/
def toInt? (x : Binary64) : Option Int :=
  match x.ratio? with
  | some (n, d) => if n % d = 0 then some (n / d) else none
  | none => none

/-- The number with the other sign; not-a-number stays itself. -/
def neg : Binary64 → Binary64
  | nan => nan
  | infinity s => infinity !s
  | finite s m e => finite (!s) m e

/-- The number nearest to a whole number. -/
def ofInt (i : Int) : Binary64 := ofRatio (decide (i < 0)) i.natAbs 1

/-- The sum. Opposite infinities have none, and an exact zero is negative only if both terms
are. -/
def add : Binary64 → Binary64 → Binary64
  | nan, _ | _, nan => nan
  | infinity s, infinity t => if s = t then infinity s else nan
  | infinity s, _ | _, infinity s => infinity s
  | x@(finite s _ _), y@(finite t _ _) =>
    match x.ratio?, y.ratio? with
    | some (a, b), some (c, d) =>
      let n := a * d + c * b
      if n = 0 then finite (s && t) 0 minExponent
      else ofRatio (decide (n < 0)) n.natAbs (b * d)
    | _, _ => nan

/-- The product. Zero times an infinity has none. -/
def mul (x y : Binary64) : Binary64 :=
  let s := x.isNegative != y.isNegative
  match x, y with
  | nan, _ | _, nan => nan
  | infinity _, infinity _ => infinity s
  | infinity _, z | z, infinity _ => if z.isZero then nan else infinity s
  | finite .., finite .. =>
    match x.ratio?, y.ratio? with
    | some (a, b), some (c, d) => ofRatio s (a * c).natAbs (b * d)
    | _, _ => nan

end Binary64

/-- The order of two quotients with positive denominators. -/
def compareRatios (a : Int) (b : Nat) (c : Int) (d : Nat) : Ordering :=
  compare (a * d) (c * b)

namespace Binary64

/-- The order of two numbers; not-a-number is not comparable. -/
def compare? : Binary64 → Binary64 → Option Ordering
  | nan, _ | _, nan => none
  | infinity s, infinity t =>
    some (if s = t then .eq else if s then .lt else .gt)
  | infinity s, finite .. => some (if s then .lt else .gt)
  | finite .., infinity t => some (if t then .gt else .lt)
  | x@(finite ..), y@(finite ..) =>
    match x.ratio?, y.ratio? with
    | some (a, b), some (c, d) => some (compareRatios a b c d)
    | _, _ => none

/-- The order of a number and a whole number, exactly. -/
def compareInt? : Binary64 → Int → Option Ordering
  | nan, _ => none
  | infinity s, _ => some (if s then .lt else .gt)
  | x@(finite ..), i =>
    match x.ratio? with
    | some (a, b) => some (compareRatios a b i 1)
    | none => none

end Binary64

end PipelineManifest.Number
