/-!
# `PipelineManifest.Glob`: patterns for names

A pattern is read character by character: `*` stands for any text, `?` for any one character,
`[...]` for one character of a class and `[!...]` for one outside it. Everything else, an
opening bracket without a closing one included, stands for itself. A class lists characters
and ranges; a range whose ends are in the wrong order is empty.

* `Glob.Piece`, `Glob.parse`: the pieces of a pattern.
* `Glob.matchesPieces`: whether a text is in the denotation of some pieces.
* `Glob.accepts`: whether a text matches a pattern.
-/

set_option autoImplicit false

namespace PipelineManifest.Glob

/-- A member of a character class: all characters from `first` to `last`. -/
structure Range where
  first : Char
  last : Char
  deriving DecidableEq, Repr

/-- Whether a range holds a character. -/
def Range.holds (r : Range) (c : Char) : Bool := r.first ≤ c && c ≤ r.last

/-- A range of one character. -/
def Range.single (c : Char) : Range := ⟨c, c⟩

/-- A character class. -/
structure CharClass where
  negated : Bool
  ranges : List Range
  deriving DecidableEq, Repr

/-- Whether a class holds a character. -/
def CharClass.holds (k : CharClass) (c : Char) : Bool :=
  k.negated != k.ranges.any (·.holds c)

/-- A piece of a pattern. -/
inductive Piece where
  | anyText
  | anyChar
  | oneOf (k : CharClass)
  | literal (c : Char)
  deriving DecidableEq, Repr

/-- The members between the brackets of a class. A hyphen makes a range of its neighbours,
unless it is the first or the last character. -/
def parseRanges : List Char → List Range
  | a :: '-' :: b :: cs => ⟨a, b⟩ :: parseRanges cs
  | a :: cs => Range.single a :: parseRanges cs
  | [] => []

/-- The members of a class without the empty ranges that come first. -/
def dropEmptyRanges : List Char → List Char
  | a :: '-' :: b :: cs => if a ≤ b then a :: '-' :: b :: cs else dropEmptyRanges cs
  | cs => cs

/-- A class from its members, once no empty range comes first. -/
def classOf : List Char → CharClass
  -- A mark that an empty range kept from coming first still negates once that range is gone. If it
  -- starts a range, the hyphen and the end of the range stand for themselves.
  | '!' :: '-' :: last :: cs => ⟨true, Range.single '-' :: Range.single last :: parseRanges cs⟩
  | '!' :: cs => ⟨true, parseRanges cs⟩
  | cs => ⟨false, parseRanges cs⟩

/-- The class written between two brackets. -/
def parseClass : List Char → CharClass
  | '!' :: cs => ⟨true, parseRanges cs⟩
  | cs => classOf (dropEmptyRanges cs)

/-- Splits at the bracket that closes a class; the first character of a class, after an
exclamation mark too, does not close it. -/
def splitClass? : List Char → Option (List Char × List Char)
  | '!' :: c :: cs => (close? cs).map fun (k, rest) => ('!' :: c :: k, rest)
  | c :: cs => if c = '!' then none else (close? cs).map fun (k, rest) => (c :: k, rest)
  | [] => none
where
  /-- Splits at the next closing bracket. -/
  close? : List Char → Option (List Char × List Char)
    | [] => none
    | c :: cs => if c = ']' then some ([], cs) else (close? cs).map fun (k, rest) => (c :: k, rest)

/-- The pieces of a pattern; every step takes at least one character, so the length of the
pattern is fuel enough. -/
def parseFrom : (fuel : Nat) → List Char → List Piece
  | 0, _ => []
  | _ + 1, [] => []
  | fuel + 1, c :: cs =>
    -- Several stars in a row say no more than one.
    if c = '*' then .anyText :: parseFrom fuel (cs.dropWhile (· = '*'))
    else if c = '?' then .anyChar :: parseFrom fuel cs
    else if c = '[' then
      match splitClass? cs with
      | some (k, rest) => .oneOf (parseClass k) :: parseFrom fuel rest
      | none => .literal '[' :: parseFrom fuel cs
    else .literal c :: parseFrom fuel cs

/-- The pieces of a pattern. -/
def parse (pattern : String) : List Piece :=
  parseFrom pattern.toList.length pattern.toList

/-- What is left of a text after each of its first parts, from the empty one on. -/
def rests : List Char → List (List Char)
  | [] => [[]]
  | c :: cs => (c :: cs) :: rests cs

/-- Whether a text is in the denotation of some pieces. -/
def matchesPieces : List Piece → List Char → Bool
  | [], cs => cs.isEmpty
  | .anyText :: ps, cs => (rests cs).any (matchesPieces ps)
  | .anyChar :: ps, _ :: cs => matchesPieces ps cs
  | .oneOf k :: ps, c :: cs => k.holds c && matchesPieces ps cs
  | .literal d :: ps, c :: cs => c = d && matchesPieces ps cs
  | .anyChar :: _, [] | .oneOf _ :: _, [] | .literal _ :: _, [] => false

/-- Whether a text matches a pattern. -/
def accepts (pattern text : String) : Bool :=
  matchesPieces (parse pattern) text.toList

end PipelineManifest.Glob
