import PipelineManifest.Text.Blank
import PipelineManifest.Text.Width

/-!
# `PipelineManifest.Table.Wrap`: a text in a column of fixed width

A line that is too long is broken between words. A word that is too long for a line of its own
is cut, with an ellipsis for what is missing.

* `naturalWidth`: the width at which a text needs no break.
* `wordsOf`, `fillLines`: the words of a line, and the lines they fill.
* `cellLines`: the lines of a text, each of the full width.
-/

set_option autoImplicit false

namespace PipelineManifest.Table

open Text (isBlank textWidth fitWidth)

/-- Characters that end a line when a text is measured. -/
def isMeasuredBreak (c : Char) : Bool :=
  let n := c.toNat
  n = 0x0A || (0x1C ≤ n && n ≤ 0x1E) || n = 0x85 || n = 0x2028 || n = 0x2029

/-- The lines of a text, as ended by some characters. -/
def linesBy (isBreak : Char → Bool) : List Char → List (List Char)
  | [] => [[]]
  | c :: cs =>
    match linesBy isBreak cs with
    | [] => [[]]
    | line :: lines => if isBreak c then [] :: line :: lines else (c :: line) :: lines

/-- The width at which a text needs no break. -/
def naturalWidth (cs : List Char) : Nat :=
  ((linesBy isMeasuredBreak cs).map textWidth).foldl max 0

/-- How far apart the places are to which tabs lead. -/
def tabWidth : Nat := 8

/-- A line from a column on, with spaces in place of tabs. -/
def expandTabs (column : Nat) : List Char → List Char
  | [] => []
  | c :: cs =>
    if c = '\t' then
      let n := tabWidth - column % tabWidth
      List.replicate n ' ' ++ expandTabs (column + n) cs
    else c :: expandTabs (column + Text.charWidth c) cs

/-- The words of a line, each with the blanks behind it, the first one also with those before
it. Every word takes a character at least. -/
def wordsFrom : (fuel : Nat) → List Char → List (List Char)
  | 0, _ => []
  | fuel + 1, cs =>
    let lead := cs.takeWhile isBlank
    let rest := cs.drop lead.length
    if rest.isEmpty then []
    else
      let word := rest.takeWhile (!isBlank ·)
      let rest := rest.drop word.length
      let trail := rest.takeWhile isBlank
      (lead ++ word ++ trail) :: wordsFrom fuel (rest.drop trail.length)

/-- The words of a line. -/
def wordsOf (cs : List Char) : List (List Char) := wordsFrom (cs.length + 1) cs

/-- A text without the blanks at its end. -/
def dropTrailingBlanks (cs : List Char) : List Char := (cs.reverse.dropWhile isBlank).reverse

/-- The lines that words fill, where `line` is the one that has been started. -/
def fillLines (width : Nat) (line : List Char) : List (List Char) → List (List Char)
  | [] => [line]
  | word :: words =>
    -- The blanks behind a word may stand beyond the width; they are trimmed later.
    if line.isEmpty || textWidth line + textWidth (dropTrailingBlanks word) ≤ width then
      fillLines width (line ++ word) words
    else line :: fillLines width word words

/-- A line in pieces of about the given width. -/
def wrapLine (width : Nat) (cs : List Char) : List (List Char) :=
  match wordsOf cs with
  | [] => [cs]
  | words => fillLines width [] words

/-- A line without blanks at its end that would stand beyond a width. -/
def trimExcess (width : Nat) (cs : List Char) : List Char :=
  let blanks := (cs.reverse.takeWhile isBlank).length
  cs.take (cs.length - min blanks (cs.length - width))

/-- A line cut to a width, with an ellipsis where something is missing. -/
def shorten (width : Nat) (cs : List Char) : List Char :=
  if width < textWidth cs then fitWidth (width - 1) cs ++ ['…'] else cs

/-- A line of exactly the given width, at the left or the right edge. -/
def alignLine (rightAligned : Bool) (width : Nat) (cs : List Char) : List Char :=
  if rightAligned then
    let cs := shorten width (dropTrailingBlanks cs)
    List.replicate (width - textWidth cs) ' ' ++ cs
  else fitWidth width (shorten width cs)

/-- The lines of a text in a column, each of the full width. -/
def cellLines (rightAligned : Bool) (width : Nat) (cs : List Char) : List (List Char) :=
  (linesBy (· = '\n') cs).flatMap fun line =>
    (wrapLine width (expandTabs 0 line)).map fun line =>
      alignLine rightAligned width (trimExcess width line)

end PipelineManifest.Table
