import PipelineManifest.Yaml.Cursor

/-!
# `PipelineManifest.Yaml.Token.Scalar`: the forms of scalars

A scalar is written plain, between quotes, or as a block of lines. Its text is what remains
when breaks are folded, escapes are resolved and the indentation is taken off.

* `readQuoted`: a scalar between single or double quotes.
* `readPlain`: a plain scalar, which ends at a comment, a mark or a line with less indentation.
* `readBlock`: a literal or folded block.
-/

set_option autoImplicit false

namespace PipelineManifest.Yaml

/-! ### Scalars between quotes -/

/-- The character that an escape of one letter stands for. -/
def escape? (c : Char) : Option Char :=
  match c with
  | '0' => some '\x00'
  | 'a' => some '\x07'
  | 'b' => some '\x08'
  | 't' | '\t' => some '\t'
  | 'n' => some '\n'
  | 'v' => some '\x0b'
  | 'f' => some '\x0c'
  | 'r' => some '\r'
  | 'e' => some '\x1b'
  | ' ' => some ' '
  | '"' => some '"'
  | '\\' => some '\\'
  | '/' => some '/'
  | 'N' => some '\x85'
  | '_' => some '\xa0'
  | 'L' => some '\u2028'
  | 'P' => some '\u2029'
  | _ => none

/-- How many hexadecimal digits follow the letter of an escape by number. -/
def escapeWidth? (c : Char) : Option Nat :=
  match c with
  | 'x' => some 2
  | 'u' => some 4
  | 'U' => some 8
  | _ => none

/-- The character of a number. -/
def character (n : Nat) : Except Defect Char :=
  if 0x80000000 ≤ n then .error .hugeCharacter
  else if 0x110000 ≤ n then .error .noCharacter
  else .ok (Char.ofNat n)

/-- The line breaks between two lines of a quoted scalar; a separator of documents may not come
there. Every break is one character at least, so the rest of the text is fuel enough. -/
def quotedBreaks : (fuel : Nat) → Reader (List Char)
  | 0, c => .ok ([], c)
  | fuel + 1, c =>
    if c.atSeparator then .error .rejected
    else
      let c := c.skipWhile fun ch => ch = ' ' || ch = '\t'
      match c.lineBreak with
      | (some ch, c) => do
        let (rest, c) ← quotedBreaks fuel c
        return (ch :: rest, c)
      | (none, c) => .ok ([], c)

/-- The blanks and breaks between two words of a quoted scalar: blanks inside a line stand for
themselves, a single break for a space, and further breaks for themselves. -/
def quotedSpaces : Reader (List Char) := fun c =>
  let (blanks, c) := c.takeWhile fun ch => ch = ' ' || ch = '\t'
  if c.next = '\x00' then .error .rejected
  else
    match c.lineBreak with
    -- Blanks in front of a break are lost. A break that is no line feed is kept.
    | (some first, c) => do
      let (rest, c) ← quotedBreaks (c.rest.length + 1) c
      return ((if first ≠ '\n' then [first] else if rest.isEmpty then [' '] else []) ++ rest, c)
    | (none, c) => .ok (blanks, c)

/-- An escape, at the character after its backslash; a break after a backslash joins two
lines. -/
def quotedEscape : Reader (List Char) := fun c =>
  let ch := c.next
  match escape? ch, escapeWidth? ch with
  | some e, _ => .ok ([e], c.step)
  | none, some width =>
    let digits := (c.step.rest.take width)
    match hexNumber? digits with
    | some n =>
      if digits.length < width then .error .rejected
      else do return ([← character n], c.step.advance width)
    | none => .error .rejected
  | none, none =>
    -- The break itself is hidden, but empty lines after it are not.
    match c.lineBreak with
    | (some _, c) => quotedBreaks (c.rest.length + 1) c
    | (none, _) => .error .rejected

/-- The characters of a quoted scalar that stand for themselves. -/
def isQuotedChar (c : Char) : Bool :=
  c ≠ '\'' && c ≠ '"' && c ≠ '\\' && !isBlankOrEnd c

/-- A word of a quoted scalar, up to a blank or the closing quote. -/
def quotedWord (double : Bool) : (fuel : Nat) → Reader (List Char)
  | 0, c => .ok ([], c)
  | fuel + 1, c =>
    let (run, c) := c.takeWhile isQuotedChar
    let ch := c.next
    let piece : Option (Except Defect (List Char × Cursor)) :=
      if !double && ch = '\'' && c.peek 1 = '\'' then some (.ok (['\''], c.advance 2))
      else if (double && ch = '\'') || (!double && (ch = '"' || ch = '\\')) then
        some (.ok ([ch], c.step))
      else if double && ch = '\\' then some (quotedEscape c.step)
      else none
    match piece with
    | none => .ok (run, c)
    | some step => do
      let (cs, c) ← step
      let (rest, c) ← quotedWord double fuel c
      return (run ++ cs ++ rest, c)

/-- The words of a quoted scalar after the first one, with what lies between them, up to the
closing quote. -/
def quotedRest (double : Bool) (quote : Char) : (fuel : Nat) → Reader (List Char)
  | 0, _ => .error .rejected
  | fuel + 1, c =>
    if c.next = quote then .ok ([], c.step)
    else do
      let (between, c) ← quotedSpaces c
      let (word, c) ← quotedWord double (c.rest.length + 1) c
      let (rest, c) ← quotedRest double quote fuel c
      return (between ++ word ++ rest, c)

/-- A scalar between quotes, at its opening quote. -/
def readQuoted : Reader String := fun c => do
  let quote := c.next
  let double := quote = '"'
  let c := c.step
  let (word, c) ← quotedWord double (c.rest.length + 1) c
  let (rest, c) ← quotedRest double quote (c.rest.length + 1) c
  return (String.ofList (word ++ rest), c)

/-! ### Plain scalars -/

/-- Marks that end a plain scalar inside brackets. -/
def isFlowMark (c : Char) : Bool :=
  c = ',' || c = '[' || c = ']' || c = '\x7b' || c = '\x7d'

/-- How many characters a plain scalar has before a blank, a colon that ends a word, or, inside
brackets, a mark. -/
def plainLength (flow : Bool) : List Char → Nat
  | [] => 0
  | c :: cs =>
    let after := cs.headD '\x00'
    if isBlankOrEnd c || (c = ':' && (isBlankOrEnd after || (flow && isFlowMark after)))
        || (flow && (c = '?' || isFlowMark c)) then 0
    else plainLength flow cs + 1

/-- The breaks after the first one between two lines of a plain scalar; nothing if a separator
of documents comes. -/
def plainBreaks : (fuel : Nat) → Cursor → Option (List Char) × Cursor
  | 0, c => (some [], c)
  | fuel + 1, c =>
    let c := c.skipSpaces
    match c.lineBreak with
    | (some ch, c) =>
      if c.atSeparator then (none, c)
      else
        let (rest, c) := plainBreaks fuel c
        (rest.map (ch :: ·), c)
    | (none, c) => (some [], c)

/-- What lies between two words of a plain scalar, and whether it contains a break. It is empty
where the scalar ends. -/
def plainSpaces : Cursor → (List Char × Bool) × Cursor := fun c =>
  let (blanks, c) := c.takeWhile (· = ' ')
  match c.lineBreak with
  | (some first, c) =>
    if c.atSeparator then (([], true), c)
    else
      match plainBreaks (c.rest.length + 1) c with
      | (some rest, c) =>
        (((if first ≠ '\n' then [first] else if rest.isEmpty then [' '] else []) ++ rest, true), c)
      | (none, c) => (([], true), c)
  | (none, c) => ((blanks, false), c)

/-- The words of a plain scalar, with what lies between them, and whether the scalar has been
followed over a break at the end. `between` is what comes before the next word. -/
def plainWords (flow : Bool) (indent : Int) (between : List Char) (broken : Bool) :
    (fuel : Nat) → Cursor → (List Char × Bool) × Cursor
  | 0, c => (([], broken), c)
  | fuel + 1, c =>
    if c.next = '#' then (([], broken), c)
    else
      let n := plainLength flow c.rest
      if n = 0 then (([], broken), c)
      else
        let word := c.rest.take n
        let ((spaces, broken), c) := plainSpaces (c.advance n)
        -- What follows belongs to the scalar only if it is set off, is no comment, and does not
        -- stand too far to the left.
        if spaces.isEmpty || c.next = '#' || (!flow && (c.column : Int) < indent) then
          ((between ++ word, broken), c)
        else
          let ((rest, broken), c) := plainWords flow indent spaces broken fuel c
          ((between ++ word ++ rest, broken), c)

/-- A plain scalar inside a collection of the given indentation, and whether a line break
follows it. -/
def readPlain (flow : Bool) (indent : Int) (c : Cursor) : (String × Bool) × Cursor :=
  let ((cs, broken), c) := plainWords flow (indent + 1) [] false (c.rest.length + 1) c
  ((String.ofList cs, broken), c)

/-! ### Blocks -/

/-- What becomes of the breaks at the end of a block. -/
inductive Chomping where
  | strip
  | clip
  | keep
  deriving DecidableEq, Repr

/-- The chomping mark at the position. -/
def chompingMark? (c : Cursor) : Option Chomping :=
  if c.next = '+' then some .keep else if c.next = '-' then some .strip else none

/-- The indentation mark at the position: a digit other than zero. -/
def indentMark (c : Cursor) : Except Defect (Option Nat × Cursor) :=
  if c.next.isDigit then
    let n := c.next.toNat - 0x30
    if n = 0 then .error .rejected else .ok (some n, c.step)
  else .ok (none, c)

/-- The marks after the sign of a block, in either order. -/
def blockHeader : Reader (Chomping × Option Nat) := fun c => do
  let ((chomping, indent), c) ← match chompingMark? c with
    | some chomping => do
      let (indent, c) ← indentMark c.step
      pure ((chomping, indent), c)
    | none => do
      let (indent, c) ← indentMark c
      match indent, chompingMark? c with
      | some _, some chomping => pure ((chomping, indent), c.step)
      | _, _ => pure ((Chomping.clip, indent), c)
  if isSpaceOrEnd c.next then return ((chomping, indent), c) else throw .rejected

/-- The breaks before the first line of a block whose indentation is not given, and the
deepest column among the spaces there. -/
def blockIndentation (deepest : Nat) : (fuel : Nat) → Cursor → (List Char × Nat) × Cursor
  | 0, c => (([], deepest), c)
  | fuel + 1, c =>
    if c.next = ' ' then
      let c := c.step
      blockIndentation (max deepest c.column) fuel c
    else
      match c.lineBreak with
      | (some ch, c) =>
        let ((rest, deepest), c) := blockIndentation deepest fuel c
        ((ch :: rest, deepest), c)
      | (none, c) => (([], deepest), c)

/-- The position after at most as many spaces as lead to the given column. -/
def skipIndent (indent : Nat) (c : Cursor) : Cursor :=
  let spaces := (c.rest.takeWhile (· = ' ')).length
  c.advance (min spaces (indent - c.column))

/-- The breaks between two lines of a block. -/
def blockBreaks (indent : Nat) : (fuel : Nat) → Cursor → List Char × Cursor
  | 0, c => ([], c)
  | fuel + 1, c =>
    let c := skipIndent indent c
    match c.lineBreak with
    | (some ch, c) =>
      let (rest, c) := blockBreaks indent fuel c
      (ch :: rest, c)
    | (none, c) => ([], c)

/-- Whether a line of a block stands at the position. -/
def atBlockLine (indent : Nat) (c : Cursor) : Bool := c.column = indent && c.next ≠ '\x00'

/-- The lines of a block from the position on; `breaks` are those before the first of them. The
result holds the text up to the last line, the break after that line, and the breaks that
follow. In a folded block a single break between two lines that start with no blank stands for
a space. -/
def blockLines (folded : Bool) (indent : Nat) (breaks : List Char) :
    (fuel : Nat) → Cursor → (List Char × Option Char × List Char) × Cursor
  | 0, c => (([], none, breaks), c)
  | fuel + 1, c =>
    if !atBlockLine indent c then (([], none, breaks), c)
    else
      let startsFull := c.next ≠ ' ' && c.next ≠ '\t'
      let (line, c) := c.takeWhile (!isBreakOrEnd ·)
      let (last, c) := c.lineBreak
      let (after, c) := blockBreaks indent (c.rest.length + 1) c
      if atBlockLine indent c then
        -- A line that starts with a blank is meant to stay a line of its own.
        let joint :=
          if folded && last = some '\n' && startsFull && c.next ≠ ' ' && c.next ≠ '\t' then
            if after.isEmpty then [' '] else []
          else last.toList
        let ((rest, last, tail), c) := blockLines folded indent after fuel c
        ((breaks ++ line ++ joint ++ rest, last, tail), c)
      else ((breaks ++ line, last, after), c)

/-- A block inside a collection of the given indentation, at its sign. -/
def readBlock (indent : Int) : Reader String := fun c => do
  let folded := c.next = '>'
  let ((chomping, given), c) ← blockHeader c.step
  let ((), c) ← endLine c
  let least := (max 1 (indent + 1)).toNat
  -- A given indentation counts from that of the collection around the block; otherwise the
  -- first line that is not empty gives it.
  let ((breaks, column), c) := match given with
    | some n =>
      let column := least + n - 1
      let (breaks, c) := blockBreaks column (c.rest.length + 1) c
      ((breaks, column), c)
    | none =>
      let ((breaks, deepest), c) := blockIndentation 0 (c.rest.length + 1) c
      ((breaks, max least deepest), c)
  let ((text, last, tail), c) := blockLines folded column breaks (c.rest.length + 1) c
  let ending := match chomping with
    | .strip => []
    | .clip => last.toList
    | .keep => last.toList ++ tail
  return (String.ofList (text ++ ending), c)

end PipelineManifest.Yaml
