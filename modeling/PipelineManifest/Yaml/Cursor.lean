/-!
# `PipelineManifest.Yaml.Cursor`: characters and positions of a YAML text

* `Defect`: the ways in which a text fails to be YAML that stands for values.
* `isAllowed`: the characters that a YAML text may hold.
* `isBreak`, `isBreakOrEnd`, `isBlankOrEnd`: the characters that end lines and words. The end
  of the text reads as the character `'\x00'`, which no text may hold.
* `Cursor`: a position in a text, with the characters from there on.
* `Cursor.takeWhile`, `Cursor.lineBreak`: reading forward.
-/

set_option autoImplicit false

namespace PipelineManifest.Yaml

/-- The ways in which a text fails to be YAML that stands for values. -/
inductive Defect where
  /-- The text breaks a rule of the language, or a node cannot be what its tag says. -/
  | rejected
  /-- The text holds a character that is allowed nowhere. -/
  | forbiddenCharacter
  /-- An escape names no character. -/
  | noCharacter
  /-- The number of an escape is too large even to be looked up. -/
  | hugeCharacter
  /-- A text stands for no number, or has too many digits. -/
  | noNumber
  /-- A number is empty. -/
  | emptyNumber
  /-- A number is too large for its format. -/
  | hugeNumber
  /-- A date or time does not exist. -/
  | noDate
  /-- A text does not have the form of a time. -/
  | noTime
  /-- A word is neither true nor false. -/
  | noBoolean
  /-- A container stands where a text or a key is needed. -/
  | noText
  deriving DecidableEq, Repr

/-- The characters that a YAML text may hold. -/
def isAllowed (c : Char) : Bool :=
  let n := c.toNat
  n = 0x09 || n = 0x0A || n = 0x0D || (0x20 ≤ n && n ≤ 0x7E) || n = 0x85
    || (0xA0 ≤ n && n ≤ 0xD7FF) || (0xE000 ≤ n && n ≤ 0xFFFD) || 0x10000 ≤ n

/-- Characters that end a line. -/
def isBreak (c : Char) : Bool :=
  c = '\n' || c = '\r' || c = '\x85' || c = '\u2028' || c = '\u2029'

/-- Characters that end a line, and the end of the text. -/
def isBreakOrEnd (c : Char) : Bool := c = '\x00' || isBreak c

/-- The space, characters that end a line, and the end of the text. -/
def isSpaceOrEnd (c : Char) : Bool := c = ' ' || isBreakOrEnd c

/-- Space, tab, characters that end a line, and the end of the text. -/
def isBlankOrEnd (c : Char) : Bool := c = '\t' || isSpaceOrEnd c

/-- The letters, digits and marks of which names are made. -/
def isNameChar (c : Char) : Bool := c.isAlphanum || c = '-' || c = '_'

/-- The value of a hexadecimal digit. -/
def hexValue? (c : Char) : Option Nat :=
  if c.isDigit then some (c.toNat - 0x30)
  else if 'A' ≤ c && c ≤ 'F' then some (c.toNat - 0x41 + 10)
  else if 'a' ≤ c && c ≤ 'f' then some (c.toNat - 0x61 + 10)
  else none

/-- The number that hexadecimal digits stand for; nothing if one of them is none. -/
def hexNumber? (cs : List Char) : Option Nat :=
  cs.foldlM (fun n c => (hexValue? c).map (n * 16 + ·)) 0

/-- A position in a text: the characters from there on, how many came before, the line, and
the column in it. -/
structure Cursor where
  rest : List Char
  index : Nat := 0
  line : Nat := 0
  column : Nat := 0

namespace Cursor

/-- The character at the position. -/
def next (c : Cursor) : Char := c.rest.headD '\x00'

/-- The character `i` places after the position. -/
def peek (c : Cursor) (i : Nat) : Char := (c.rest.drop i).headD '\x00'

/-- The position after the next character. A carriage return before a line feed does not yet
end the line, and a byte order mark takes no column. -/
def step (c : Cursor) : Cursor :=
  match c.rest with
  | [] => c
  | ch :: rest =>
    if isBreak ch && !(ch = '\r' && rest.head? = some '\n') then
      ⟨rest, c.index + 1, c.line + 1, 0⟩
    else if ch = '\uFEFF' then ⟨rest, c.index + 1, c.line, c.column⟩
    else ⟨rest, c.index + 1, c.line, c.column + 1⟩

/-- The position after the next `n` characters. -/
def advance : Nat → Cursor → Cursor
  | 0, c => c
  | n + 1, c => advance n c.step

/-- The characters that satisfy `p` from the position on, and the position after them. -/
def takeWhile (p : Char → Bool) (c : Cursor) : List Char × Cursor :=
  let cs := c.rest.takeWhile p
  (cs, c.advance cs.length)

/-- The position after the characters that satisfy `p`. -/
def skipWhile (p : Char → Bool) (c : Cursor) : Cursor := (c.takeWhile p).2

/-- The position after the spaces. -/
def skipSpaces (c : Cursor) : Cursor := c.skipWhile (· = ' ')

/-- The position at the end of the line. -/
def skipLine (c : Cursor) : Cursor := c.skipWhile (!isBreakOrEnd ·)

/-- The line break at the position, if there is one: a line feed, whichever way it is written,
or one of the two separators, which stand for themselves. -/
def lineBreak (c : Cursor) : Option Char × Cursor :=
  let ch := c.next
  if ch = '\r' && c.peek 1 = '\n' then (some '\n', c.advance 2)
  else if ch = '\n' || ch = '\r' || ch = '\x85' then (some '\n', c.step)
  else if ch = '\u2028' || ch = '\u2029' then (some ch, c.step)
  else (none, c)

/-- Whether three equal marks stand at the position as a word of their own. -/
def atMark (mark : Char) (c : Cursor) : Bool :=
  c.next = mark && c.peek 1 = mark && c.peek 2 = mark && isBlankOrEnd (c.peek 3)

/-- Whether the position is at a separator of documents. -/
def atSeparator (c : Cursor) : Bool := c.atMark '-' || c.atMark '.'

end Cursor

/-- A reader of a part of a text. -/
abbrev Reader (α : Type) := Cursor → Except Defect (α × Cursor)

/-- The rest of a line after its content: spaces and a comment, then the break. -/
def endLine : Reader Unit := fun c =>
  let c := c.skipSpaces
  let c := if c.next = '#' then c.skipLine else c
  if isBreakOrEnd c.next then .ok ((), c.lineBreak.2) else .error .rejected

end PipelineManifest.Yaml
