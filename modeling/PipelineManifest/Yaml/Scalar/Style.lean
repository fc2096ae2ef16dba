import PipelineManifest.Yaml.Cursor
import PipelineManifest.Yaml.Tag

/-!
# `PipelineManifest.Yaml.Scalar.Style`: how a scalar can be written

A scalar is written plain where its form gives it the right tag and nothing in it could be
taken for a mark; else between single quotes, where its breaks and blanks survive; else
between double quotes, where every character can be escaped. Only printable ASCII and line
feeds are written as they are.

* `ScalarStyle`: the styles.
* `Traits`, `Traits.ofText`: what in a text decides about its style.
* `ScalarStyle.choose`: the style of a scalar.
-/

set_option autoImplicit false

namespace PipelineManifest.Yaml

/-- The ways of writing a scalar. -/
inductive ScalarStyle where
  | plain
  | singleQuoted
  | doubleQuoted
  | literal
  deriving DecidableEq, Repr

/-- What in a text decides about its style. -/
structure Traits where
  empty : Bool
  multiline : Bool
  allowsPlain : Bool
  allowsSingleQuoted : Bool
  allowsLiteral : Bool

/-- Whether a character is written as it is. -/
def isPlainAscii (c : Char) : Bool := c = '\n' || (' ' ≤ c && c ≤ '~')

/-- Characters that are marks at the start of a scalar. -/
def isLeadingMark (c : Char) : Bool := "#,[]\x7b\x7d&*!|>'\"%@\x60".toList.contains c

/-- Whether the character `c` could be taken for a mark, given whether it is the first one and
what stands before and after it. -/
def isMarkAt (first blankBefore blankAfter : Bool) (c : Char) : Bool :=
  if first then
    isLeadingMark c || ((c = '?' || c = ':' || c = '-') && blankAfter)
  else (c = ':' && blankAfter) || (c = '#' && blankBefore)

/-- Whether some character of a text could be taken for a mark. -/
def hasMark (first blankBefore : Bool) : List Char → Bool
  | [] => false
  | c :: cs =>
    isMarkAt first blankBefore (isBlankOrEnd (cs.headD '\x00')) c
      || hasMark false (isBlankOrEnd c) cs

/-- Whether `b` follows `a` somewhere in a text. -/
def hasAdjacent (a b : Char) (cs : List Char) : Bool :=
  (cs.zip cs.tail).contains (a, b)

/-- The traits of a text. -/
def Traits.ofText (cs : List Char) : Traits :=
  -- Blanks at the ends of a plain scalar, and those around a break, would be lost.
  let isEdge (c : Option Char) := c = some ' ' || c = some '\n'
  let edges := isEdge cs.head? || isEdge cs.getLast?
  let separator := ['-', '-', '-'].isPrefixOf cs || ['.', '.', '.'].isPrefixOf cs
  let escapes := hasAdjacent ' ' '\n' cs || !cs.all isPlainAscii
  let breakSpace := hasAdjacent '\n' ' ' cs
  let multiline := cs.any isBreakNotReturn
  { empty := cs.isEmpty
    multiline
    allowsPlain := !edges && !breakSpace && !escapes && !multiline && !separator
      && !hasMark true true cs
    allowsSingleQuoted := !breakSpace && !escapes
    allowsLiteral := !cs.isEmpty && cs.getLast? ≠ some ' ' && !escapes }
where
  /-- Breaks, apart from the carriage return. -/
  isBreakNotReturn (c : Char) : Bool := isBreak c && c ≠ '\r'

/-- The style of a scalar with the given traits. `resolves` says whether the plain form gets
the right tag, `key` whether the scalar is a key that carries no mark, and `block` whether it
asks for a literal block. -/
def ScalarStyle.choose (t : Traits) (resolves key block : Bool) : ScalarStyle :=
  if block then
    if !key && t.allowsLiteral then .literal else .doubleQuoted
  else if resolves && !(key && (t.empty || t.multiline)) && t.allowsPlain then .plain
  else if t.allowsSingleQuoted && !(key && t.multiline) then .singleQuoted
  else .doubleQuoted

end PipelineManifest.Yaml
