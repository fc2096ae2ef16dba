import PipelineManifest.Number.Reading
import PipelineManifest.Text.Base64
import PipelineManifest.Value.Basic
import PipelineManifest.Yaml.Cursor
import PipelineManifest.Yaml.Tag

/-!
# `PipelineManifest.Yaml.Scalar.Read`: the values of tagged texts

Each tag of a scalar has its way of reading a text. The ways accept more than the forms that
get a tag by themselves, because a tag can be written with any text.

* `readInteger`, `readFloatNumber`, `readBoolean`, `readTime`, `readBinary`: one way each.
* `Tag.read?`: the value of a text with a tag, if the tag is one of a scalar.
-/

set_option autoImplicit false

namespace PipelineManifest.Yaml

open Number (Binary64 readInt? readFloat?)

/-- A whole number as a result. -/
def integerOf (n : Option Int) : Except Defect Int :=
  match n with
  | some n => .ok n
  | none => .error .noNumber

/-- A sign at the front of a number that must not be empty. -/
def signOf : List Char → Except Defect (Bool × List Char)
  | [] => .error .emptyNumber
  | c :: cs => .ok (c = '-', if c = '-' || c = '+' then cs else c :: cs)

/-- The value of a number to the base sixty, given its parts. -/
def sexagesimal (parts : List Int) : Int := parts.foldl (fun n part => n * 60 + part) 0

/-- The size of a whole number: the base is told by how it starts. -/
def readSize : List Char → Except Defect Int
  | [] => .error .emptyNumber
  | ['0'] => .ok 0
  -- A prefix may stand before nothing, which is no number.
  | '0' :: 'b' :: cs => integerOf (readInt? 2 cs)
  | '0' :: 'x' :: cs => integerOf (readInt? 16 cs)
  | '0' :: cs => integerOf (readInt? 8 ('0' :: cs))
  | cs =>
    if cs.contains ':' then do
      return sexagesimal (← (splitAtAll ':' cs).mapM fun part => integerOf (readInt? 10 part))
    else integerOf (readInt? 10 cs)

/-- A whole number; separators between digits are left out. -/
def readInteger (cs : List Char) : Except Defect Value := do
  let (negative, cs) ← signOf (cs.filter (· ≠ '_'))
  let n ← readSize cs
  return .int (if negative then -n else n)

/-- The value of a floating-point number to the base sixty, given its parts from the last one
on. Every weight is a whole number, rounded before it is multiplied. -/
def sexagesimalFloat (weight : Int) (sum : Binary64) : List Binary64 → Except Defect Binary64
  | [] => .ok sum
  | x :: xs =>
    match Binary64.ofInt weight with
    -- The weight is a whole number of any size, and may be too large to be rounded.
    | .infinity _ => .error .hugeNumber
    | w => sexagesimalFloat (weight * 60) (sum.add (x.mul w)) xs

/-- A floating-point number as a result. -/
def floatOf (x : Option Binary64) : Except Defect Binary64 :=
  match x with
  | some x => .ok x
  | none => .error .noNumber

/-- A floating-point number; separators between digits are left out. -/
def readFloatNumber (cs : List Char) : Except Defect Value := do
  let (negative, cs) ← signOf ((cs.filter (· ≠ '_')).map Char.toLower)
  let signed (x : Binary64) := Value.float (if negative then x.neg else x)
  if cs = ['.', 'i', 'n', 'f'] then return signed (.infinity false)
  else if cs = ['.', 'n', 'a', 'n'] then return .float .nan
  else if cs.contains ':' then do
    let parts ← (splitAtAll ':' cs).mapM fun part => floatOf (readFloat? part)
    return signed (← sexagesimalFloat 1 .zero parts.reverse)
  else return signed (← floatOf (readFloat? cs))

/-- A word for true or false, in any letter case. -/
def readBoolean (cs : List Char) : Except Defect Value :=
  let word := String.ofList (cs.map Char.toLower)
  if word = "yes" || word = "true" || word = "on" then .ok (.bool true)
  else if word = "no" || word = "false" || word = "off" then .ok (.bool false)
  else .error .noBoolean

/-- Microseconds from the digits of a fraction; further digits are cut off. -/
def microseconds (fraction : List Char) : Nat :=
  let ds := fraction.take 6
  digitsValue (ds ++ List.replicate (6 - ds.length) '0')

/-- The offset in seconds; without hours it is that of universal time. -/
def ClockForm.seconds? (c : ClockForm) : Option Int :=
  match c.offset with
  | some o =>
    let n : Int := (o.hours * 60 + o.minutes) * 60
    some (if o.negative then -n else n)
  | none => if c.hasZone then some 0 else none

/-- A date or a time. -/
def readTime (cs : List Char) : Except Defect Value := do
  let some form := TimeForm.ofText? cs | throw .noTime
  let some date := Date.ofParts? form.year form.month form.day | throw .noDate
  match form.clock with
  | none => return .date date
  | some c =>
    match DateTime.ofParts? date c.hour c.minute c.second (microseconds c.fraction) c.seconds? with
    | some t => return .time t
    | none => throw .noDate

/-- Octets, written in ASCII. -/
def readBinary (cs : List Char) : Except Defect Value :=
  if cs.all fun c => c.toNat < 0x80 then
    match Text.decodeBase64? cs with
    | some octets => .ok (.bytes octets)
    | none => .error .rejected
  else .error .rejected

/-- The value of a text with a tag; nothing if the tag is none of a scalar. -/
def Tag.read? (tag : Tag) (text : String) : Option (Except Defect Value) :=
  let cs := text.toList
  match tag with
  | .null => some (.ok .null)
  | .boolean => some (readBoolean cs)
  | .integer => some (readInteger cs)
  | .float => some (readFloatNumber cs)
  | .binary => some (readBinary cs)
  | .timestamp => some (readTime cs)
  | .text => some (.ok (.str text))
  | _ => none

end PipelineManifest.Yaml
