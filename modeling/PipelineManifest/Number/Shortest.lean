import PipelineManifest.Number.Binary64

/-!
# `PipelineManifest.Number.Shortest`: floating-point numbers in decimal

A number is written with the fewest decimal digits that read back as the same number; among
those, with the digits nearest to its value. Numbers from 10⁻⁴ up to 10¹⁶ are written
positionally and always with a fraction, all others with an exponent.

* `shortestDigits`: the digits and their power of ten.
* `FloatFormat`, `manifestFloats`: where the exponent form begins, and how it is spelled.
* `Binary64.text`: the written form.
-/

set_option autoImplicit false

namespace PipelineManifest.Number

/-- The decimal digits of a whole number. -/
def decimal (n : Nat) : List Char := Nat.toDigits 10 n

/-- `num / den` compared with `c * 10 ^ k`. -/
def compareToGrid (num den c : Nat) (k : Int) : Ordering :=
  if 0 ≤ k then compare num (c * Nat.pow 10 k.toNat * den)
  else compare (num * Nat.pow 10 (-k).toNat) (c * den)

/-- The power of ten of the leading digit of `num / den`, which must be positive. -/
def leadingPower (num den : Nat) : Int :=
  if den ≤ num then ((decimal (num / den)).length : Int) - 1
  else -((decimal ((den - 1) / num)).length : Int)

/-- The positive quotient divided by `10 ^ k`, rounded down. -/
def floorOnGrid (num den : Nat) (k : Int) : Nat :=
  if 0 ≤ k then num / (den * Nat.pow 10 k.toNat) else num * Nat.pow 10 (-k).toNat / den

/-- The reals that round to one number: the ends as quotients over a common denominator, and
whether the ends belong. -/
structure RoundingInterval where
  low : Nat
  high : Nat
  den : Nat
  closed : Bool

/-- The interval around `m * 2 ^ e`. Below the least significand of 53 bits the neighbours are
half as far apart. -/
def roundingInterval (m : Nat) (e : Int) : RoundingInterval :=
  -- Everything is counted in quarters of a unit of the significand.
  let narrow := m = Nat.pow 2 52 && Binary64.minExponent < e
  let low := if narrow then 4 * m - 1 else 4 * m - 2
  let high := 4 * m + 2
  let e := e - 2
  if 0 ≤ e then ⟨low * Nat.pow 2 e.toNat, high * Nat.pow 2 e.toNat, 1, m % 2 = 0⟩
  else ⟨low, high, Nat.pow 2 (-e).toNat, m % 2 = 0⟩

/-- Whether `c * 10 ^ k` rounds to the number of the interval. -/
def RoundingInterval.covers (i : RoundingInterval) (c : Nat) (k : Int) : Bool :=
  let atLow := compareToGrid i.low i.den c k
  let atHigh := compareToGrid i.high i.den c k
  (atLow = .lt || (i.closed && atLow = .eq)) && (atHigh = .gt || (i.closed && atHigh = .eq))

/-- Of the two neighbours of `num / den` on the grid of multiples of `10 ^ k`, the nearest one
that the interval covers; a tie goes to the even one. -/
def neighbourOnGrid? (i : RoundingInterval) (num den : Nat) (k : Int) : Option Nat :=
  let c := floorOnGrid num den k
  match i.covers c k, i.covers (c + 1) k with
  | false, false => none
  | true, false => some c
  | false, true => some (c + 1)
  | true, true =>
    -- the value against the middle of the two neighbours
    match compareToGrid (2 * num) den (2 * c + 1) k with
    | .lt => some c
    | .gt => some (c + 1)
    | .eq => some (if c % 2 = 0 then c else c + 1)

/-- The digits and the power of ten of the last one, from a grid of `n` digits on; every
number has such digits on the grid of seventeen. -/
def shortestFrom (i : RoundingInterval) (num den : Nat) (lead : Int) :
    (fuel n : Nat) → Nat × Int
  | 0, n => let k := lead + 1 - n; (floorOnGrid num den k, k)
  | fuel + 1, n =>
    let k := lead + 1 - n
    match neighbourOnGrid? i num den k with
    | some c => (c, k)
    | none => shortestFrom i num den lead fuel (n + 1)

/-- The fewest digits that read back as `m * 2 ^ e`, and the power of ten of the last one. -/
def shortestDigits (m : Nat) (e : Int) : Nat × Int :=
  let (num, den) := if 0 ≤ e then (m * Nat.pow 2 e.toNat, 1) else (m, Nat.pow 2 (-e).toNat)
  shortestFrom (roundingInterval m e) num den (leadingPower num den) 17 1

/-- The digits without zeros at the end, each of which raises the power of ten. -/
def stripZeros : List Char → Int → List Char × Int
  | cs, k =>
    let zeros := cs.reverse.takeWhile (· = '0')
    (cs.take (cs.length - zeros.length), k + zeros.length)

/-- How numbers are laid out. -/
structure FloatFormat where
  /-- The least power of ten of a leading digit that is written positionally. -/
  positionalFrom : Int
  /-- The least power of ten of a leading digit that is not. -/
  positionalBelow : Int
  /-- The least count of digits of an exponent. -/
  exponentDigits : Nat

/-- Numbers in messages, logs and documents: positional from 10⁻⁴ up to 10¹⁶, exponents with
a sign and at least two digits. -/
def manifestFloats : FloatFormat := ⟨-4, 16, 2⟩

/-- The digits of an exponent, padded with zeros. -/
def FloatFormat.exponent (f : FloatFormat) (e : Int) : List Char :=
  let ds := decimal e.natAbs
  (if e < 0 then '-' else '+') :: List.replicate (f.exponentDigits - ds.length) '0' ++ ds

/-- Digits `ds` whose last one stands for `10 ^ k`, laid out. -/
def FloatFormat.layOut (f : FloatFormat) (ds : List Char) (k : Int) : List Char :=
  let lead := k + ds.length - 1
  if f.positionalFrom ≤ lead && lead < f.positionalBelow then
    if 0 ≤ k then ds ++ List.replicate k.toNat '0' ++ ['.', '0']
    else if 0 ≤ lead then
      let whole := (lead + 1).toNat
      ds.take whole ++ '.' :: ds.drop whole
    else '0' :: '.' :: List.replicate (-lead - 1).toNat '0' ++ ds
  else
    let fraction := ds.drop 1
    ds.take 1 ++ (if fraction.isEmpty then [] else '.' :: fraction)
      ++ 'e' :: f.exponent lead

/-- The written form of a number. -/
def Binary64.text : Binary64 → String
  | .nan => "nan"
  | .infinity s => if s then "-inf" else "inf"
  | .finite s m e =>
    let (c, k) := if m = 0 then (0, 0) else shortestDigits m e
    let (ds, k) := if c = 0 then (['0'], 0) else stripZeros (decimal c) k
    String.ofList ((if s then ['-'] else []) ++ manifestFloats.layOut ds k)

end PipelineManifest.Number
