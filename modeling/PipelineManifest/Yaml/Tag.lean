/-!
# `PipelineManifest.Yaml.Tag`: tags, and the tags of untagged scalars

A tag says what a node stands for. A plain scalar without a tag gets one by its form: words for
booleans and null, numbers in several notations, times, and two marks; every other scalar is a
text. A form may be followed by one line feed.

* `Tag`, `Tag.ofText`: the tags.
* `Tag.ofPlain`: the tag of an untagged plain scalar.
* `TimeForm`, `TimeForm.ofText?`: the form of a date or a time.
-/

set_option autoImplicit false

namespace PipelineManifest.Yaml

/-- The tags that have a meaning of their own, and all others. -/
inductive Tag where
  | null
  | boolean
  | integer
  | float
  | binary
  | timestamp
  | orderedMap
  | pairs
  | set
  | text
  | sequence
  | mapping
  | merge
  | default
  | other (name : String)
  deriving DecidableEq, Repr, Inhabited

/-- What tags of the language start with. -/
def languageTag : String := "tag:yaml.org,2002:"

/-- The name of a tag of the language. -/
def Tag.ofName? (name : String) : Option Tag :=
  if name = "null" then some .null
  else if name = "bool" then some .boolean
  else if name = "int" then some .integer
  else if name = "float" then some .float
  else if name = "binary" then some .binary
  else if name = "timestamp" then some .timestamp
  else if name = "omap" then some .orderedMap
  else if name = "pairs" then some .pairs
  else if name = "set" then some .set
  else if name = "str" then some .text
  else if name = "seq" then some .sequence
  else if name = "map" then some .mapping
  else if name = "merge" then some .merge
  else if name = "value" then some .default
  else none

/-- The tag that is written out as a text. -/
def Tag.ofText (text : String) : Tag :=
  let start := languageTag.toList
  let cs := text.toList
  if start.isPrefixOf cs then
    (ofName? (String.ofList (cs.drop start.length))).getD (.other text)
  else .other text

/-! ### Forms of numbers -/

/-- A digit, or the mark that may separate digits. -/
def isSpacedDigit (c : Char) : Bool := c.isDigit || c = '_'

/-- The text after a sign. -/
def afterSign : List Char → List Char
  | '+' :: cs | '-' :: cs => cs
  | cs => cs

/-- A digit followed by digits and separators. -/
def isSpacedNumber : List Char → Bool
  | c :: cs => c.isDigit && cs.all isSpacedDigit
  | [] => false

/-- A part of a number to the base sixty after the first: at most 59, in one or two digits. -/
def isSixtieth : List Char → Bool
  | [c] => c.isDigit
  | [c, d] => '0' ≤ c && c ≤ '5' && d.isDigit
  | _ => false

/-- The parts between the occurrences of a character. -/
def splitAtAll (sep : Char) : List Char → List (List Char)
  | [] => [[]]
  | c :: cs =>
    match splitAtAll sep cs with
    | [] => [[]]
    | part :: parts => if c = sep then [] :: part :: parts else (c :: part) :: parts

/-- A number to the base sixty: its first part, and at least one more after a colon each. -/
def isSexagesimal (first : List Char → Bool) (cs : List Char) : Bool :=
  match splitAtAll ':' cs with
  | part :: parts => first part && !parts.isEmpty && parts.all isSixtieth
  | [] => false

/-- The form of an integer: binary, octal, decimal, hexadecimal or sexagesimal. -/
def isIntegerForm (cs : List Char) : Bool :=
  let isBinary (cs : List Char) := !cs.isEmpty && cs.all fun c => c = '0' || c = '1' || c = '_'
  let isOctal (cs : List Char) := !cs.isEmpty && cs.all fun c => ('0' ≤ c && c ≤ '7') || c = '_'
  let isHex (cs : List Char) := !cs.isEmpty && cs.all fun c =>
    c.isDigit || ('a' ≤ c && c ≤ 'f') || ('A' ≤ c && c ≤ 'F') || c = '_'
  let isPlain (cs : List Char) := isSpacedNumber cs && cs.headD '0' ≠ '0'
  match afterSign cs with
  -- A zero in front tells the base, unless nothing follows it.
  | ['0'] => true
  | '0' :: 'b' :: cs => isBinary cs
  | '0' :: 'x' :: cs => isHex cs
  | '0' :: cs => isOctal cs
  | cs => isPlain cs || isSexagesimal isPlain cs

/-- An exponent with a sign, or none. -/
def isExponentForm : List Char → Bool
  | [] => true
  | e :: sign :: cs =>
    (e = 'e' || e = 'E') && (sign = '-' || sign = '+') && !cs.isEmpty && cs.all Char.isDigit
  | _ => false

/-- The form of a floating-point number: a decimal with a point, a sexagesimal number with a
point, an infinity or not-a-number. -/
def isFloatForm (cs : List Char) : Bool :=
  let unsigned := afterSign cs
  let whole := unsigned.takeWhile (· ≠ '.')
  let fraction := (unsigned.drop whole.length).drop 1
  let hasPoint := whole.length < unsigned.length
  let isDecimal := isSpacedNumber whole && isExponentForm (fraction.dropWhile isSpacedDigit)
  let isBase60 := isSexagesimal isSpacedNumber whole && fraction.all isSpacedDigit
  let isFraction := whole.isEmpty && unsigned = cs &&
    isSpacedNumber (fraction.takeWhile isSpacedDigit) &&
    isExponentForm (fraction.dropWhile isSpacedDigit)
  let isInfinity := whole.isEmpty &&
    ["inf", "Inf", "INF"].contains (String.ofList fraction)
  let isNan := whole.isEmpty && unsigned = cs &&
    ["nan", "NaN", "NAN"].contains (String.ofList fraction)
  hasPoint && (isDecimal || isBase60 || isFraction || isInfinity || isNan)

/-! ### Forms of times -/

/-- The distance from universal time in a time: its sign, hours and minutes. -/
structure OffsetForm where
  negative : Bool
  hours : Nat
  minutes : Nat

/-- The part of a time after its date. -/
structure ClockForm where
  hour : Nat
  minute : Nat
  second : Nat
  fraction : List Char
  /-- Whether there is an offset, which without hours is that of universal time. -/
  hasZone : Bool
  offset : Option OffsetForm

/-- The form of a date or a time. -/
structure TimeForm where
  year : Nat
  month : Nat
  day : Nat
  /-- Whether month and day have two digits each. -/
  fullDate : Bool
  clock : Option ClockForm

/-- The value of decimal digits. -/
def digitsValue (cs : List Char) : Nat :=
  cs.foldl (fun n c => n * 10 + (c.toNat - 0x30)) 0

/-- Between `least` and `most` digits at the front of a text, as many as there are. -/
def takeDigits? (least most : Nat) (cs : List Char) : Option (List Char × List Char) :=
  let ds := (cs.take most).takeWhile Char.isDigit
  if ds.length < least then none else some (ds, cs.drop ds.length)

/-- The text after a given character. -/
def expect? (c : Char) : List Char → Option (List Char)
  | d :: cs => if c = d then some cs else none
  | [] => none

/-- Spaces and tabs. -/
def isInlineBlank (c : Char) : Bool := c = ' ' || c = '\t'

/-- The offset that fills the rest of a time. -/
def offsetForm? (cs : List Char) : Option (Bool × Option OffsetForm) :=
  match cs.dropWhile isInlineBlank with
  | [] => if cs.isEmpty then some (false, none) else none
  | ['Z'] => some (true, none)
  | sign :: rest =>
    if sign = '+' || sign = '-' then do
      let (hours, rest) ← takeDigits? 1 2 rest
      let minutes ← match rest with
        | [] => some []
        | rest => do
          let (minutes, rest) ← takeDigits? 2 2 (← expect? ':' rest)
          if rest.isEmpty then some minutes else none
      return (true, some ⟨sign = '-', digitsValue hours, digitsValue minutes⟩)
    else none

/-- The text after what separates a date from its time of day. -/
def afterDate? : List Char → Option (List Char)
  | 'T' :: cs | 't' :: cs => some cs
  | c :: cs => if isInlineBlank c then some (cs.dropWhile isInlineBlank) else none
  | [] => none

/-- The time of day that fills the rest of a time. -/
def clockForm? (cs : List Char) : Option ClockForm := do
  let (hour, cs) ← takeDigits? 1 2 (← afterDate? cs)
  let (minute, cs) ← takeDigits? 2 2 (← expect? ':' cs)
  let (second, cs) ← takeDigits? 2 2 (← expect? ':' cs)
  let (fraction, cs) := match cs with
    | '.' :: cs => (cs.takeWhile Char.isDigit, cs.dropWhile Char.isDigit)
    | cs => ([], cs)
  let (hasZone, offset) ← offsetForm? cs
  return ⟨digitsValue hour, digitsValue minute, digitsValue second, fraction, hasZone, offset⟩

/-- A text without one line feed at its end. -/
def dropFinalBreak (cs : List Char) : List Char :=
  if cs.getLast? = some '\n' then cs.dropLast else cs

/-- The parts of a date or a time. -/
def TimeForm.ofText? (cs : List Char) : Option TimeForm := do
  let (year, cs) ← takeDigits? 4 4 (dropFinalBreak cs)
  let (month, cs) ← takeDigits? 1 2 (← expect? '-' cs)
  let (day, cs) ← takeDigits? 1 2 (← expect? '-' cs)
  let clock ← if cs.isEmpty then some none else (clockForm? cs).map some
  return ⟨digitsValue year, digitsValue month, digitsValue day,
    month.length = 2 && day.length = 2, clock⟩

/-- The form that stands for a date or a time without a tag: a full date, or any date with a
time of day. -/
def isTimeForm (cs : List Char) : Bool :=
  (TimeForm.ofText? cs).any fun t => t.fullDate || t.clock.isSome

/-! ### Untagged plain scalars -/

/-- The words for booleans, in the spellings that stand for one without a tag. -/
def booleanWords : List String :=
  ["yes", "Yes", "YES", "no", "No", "NO", "true", "True", "TRUE", "false", "False", "FALSE",
    "on", "On", "ON", "off", "Off", "OFF"]

/-- The words for null. -/
def nullWords : List String := ["~", "null", "Null", "NULL"]

/-- The tag of an untagged plain scalar. -/
def Tag.ofPlain (text : String) : Tag :=
  let cs := text.toList
  let form := dropFinalBreak cs
  let word := String.ofList form
  if booleanWords.contains word then .boolean
  -- A form with a point is never that of an integer, so the order of these two is free.
  else if isFloatForm form then .float
  else if isIntegerForm form then .integer
  else if word = "<<" then .merge
  else if text = "" || nullWords.contains word then .null
  else if isTimeForm cs then .timestamp
  else if word = "=" then .default
  else .text

end PipelineManifest.Yaml
