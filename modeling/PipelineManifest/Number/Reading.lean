import PipelineManifest.Number.Binary64
import PipelineManifest.Text.Blank

/-!
# `PipelineManifest.Number.Reading`: numbers written out in a text

Whole numbers of a given base and floating-point numbers, read from their characters. Blanks
around a number are skipped, a sign may come first, and digits of any script count. A whole
number may repeat the mark of its base (`0b`, `0o`, `0x`), and one of a base that is not a
power of two has at most `maxDigits` digits. So a number read in another base can be too long to be
written in base ten.

* `readInt?`: a whole number.
* `isWritable`: whether a whole number can be written in base ten.
* `readFloat?`: a floating-point number, rounded to the nearest.
-/

set_option autoImplicit false

namespace PipelineManifest.Number

open PipelineManifest.Text

/-- The value of a digit of a base up to sixteen: a decimal digit of any script, or a letter. -/
def digitOf? (base : Nat) (c : Char) : Option Nat :=
  let value := match digitValue? c with
    | some d => some d
    | none =>
      let n := c.toLower.toNat
      if 0x61 ≤ n && n ≤ 0x66 then some (n - 0x61 + 10) else none
  value.filter (· < base)

/-- The digits at the front of a text, and the rest. -/
def spanDigits (base : Nat) : List Char → List Nat × List Char
  | [] => ([], [])
  | c :: cs =>
    match digitOf? base c with
    | some d => let (ds, rest) := spanDigits base cs; (d :: ds, rest)
    | none => ([], c :: cs)

/-- The value of a list of digits, the highest first. -/
def ofDigits (base : Nat) (ds : List Nat) : Nat := ds.foldl (fun n d => n * base + d) 0

/-- A sign at the front of a text (`true` for minus), and the rest. -/
def splitSign : List Char → Bool × List Char
  | '-' :: cs => (true, cs)
  | '+' :: cs => (false, cs)
  | cs => (false, cs)

/-- The letter that marks a base after a zero. -/
def baseMark? : Nat → Option Char
  | 2 => some 'b'
  | 8 => some 'o'
  | 16 => some 'x'
  | _ => none

/-- The text without the mark of its base. -/
def skipBaseMark (base : Nat) : List Char → List Char
  | '0' :: c :: cs => if baseMark? base = some c.toLower then cs else '0' :: c :: cs
  | cs => cs

/-- The most digits of a number of a base that is not a power of two. -/
def maxDigits : Nat := 4300

/-- The least distance from zero at which a whole number has more than `maxDigits` digits in base
ten. -/
def writableBound : Nat := Nat.pow 10 maxDigits

/-- Whether a whole number can be written in base ten. -/
def isWritable (i : Int) : Bool := i.natAbs < writableBound

/-- A whole number of the given base that fills the whole text. -/
def readInt? (base : Nat) (cs : List Char) : Option Int :=
  let (negative, cs) := splitSign (trimBlanks cs)
  let (ds, rest) := spanDigits base (skipBaseMark base cs)
  if ds.isEmpty || !rest.isEmpty then none
  else if base = 10 && maxDigits < ds.length then none
  else
    let n : Int := ofDigits base ds
    some (if negative then -n else n)

/-- A decimal with the given digits times `10 ^ k`, rounded. Exponents far outside the range
of the format are settled before any power of ten is formed. -/
def ofDecimal (negative : Bool) (digits : Nat) (k : Int) : Binary64 :=
  let size := k + (Nat.toDigits 10 digits).length
  if digits = 0 then Binary64.ofRatio negative 0 1
  else if 400 < size then .infinity negative
  else if size < -400 then Binary64.ofRatio negative 0 1
  else if 0 ≤ k then Binary64.ofRatio negative (digits * Nat.pow 10 k.toNat) 1
  else Binary64.ofRatio negative digits (Nat.pow 10 (-k).toNat)

/-- The exponent part of a decimal, which must fill the rest of the text. -/
def readExponent? : List Char → Option Int
  | [] => some 0
  | c :: cs =>
    if c = 'e' || c = 'E' then
      let (negative, cs) := splitSign cs
      let (ds, rest) := spanDigits 10 cs
      if ds.isEmpty || !rest.isEmpty then none
      else some (if negative then -(ofDigits 10 ds : Int) else ofDigits 10 ds)
    else none

/-- The fraction digits after a point, and the rest. -/
def spanFraction : List Char → List Nat × List Char
  | '.' :: cs => spanDigits 10 cs
  | cs => ([], cs)

/-- A floating-point number that fills the whole text: a decimal, an infinity or
not-a-number, in any letter case. -/
def readFloat? (cs : List Char) : Option Binary64 :=
  let (negative, cs) := splitSign (trimBlanks cs)
  let word := String.ofList (cs.map Char.toLower)
  if word = "inf" || word = "infinity" then some (.infinity negative)
  else if word = "nan" then some .nan
  else
    let (whole, rest) := spanDigits 10 cs
    let (fraction, rest) := spanFraction rest
    if whole.isEmpty && fraction.isEmpty then none
    else
      (readExponent? rest).map fun e =>
        ofDecimal negative (ofDigits 10 (whole ++ fraction)) (e - fraction.length)

end PipelineManifest.Number
