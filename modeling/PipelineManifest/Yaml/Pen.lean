/-!
# `PipelineManifest.Yaml.Pen`: writing text with indentation

* `Pen`: a text that is being written, with what is known about its end.
* `Pen.write`, `Pen.close`, `Pen.word`, `Pen.bullet`: writing on in the line.
* `Pen.lineBreak`, `Pen.indentTo`: moving to another line.
-/

set_option autoImplicit false

namespace PipelineManifest.Yaml

/-- A text that is being written. -/
structure Pen where
  text : String := ""
  column : Nat := 0
  /-- Whether the text ends with a blank or a break, so that the next word needs none. -/
  spaced : Bool := true
  /-- Whether nothing but indentation and the marks of items stands in the line. -/
  indenting : Bool := true
  deriving Inhabited

/-- The column after which lines are broken where they can be. -/
def lineWidth : Nat := 80

namespace Pen

/-- Writes characters as they are. -/
def write (p : Pen) (cs : List Char) : Pen :=
  { p with text := cs.foldl String.push p.text, column := p.column + cs.length }

/-- The pen after a word, which needs a space before the next one. -/
def afterWord (p : Pen) : Pen := { p with spaced := false, indenting := false }

/-- Writes a mark directly after what stands before it. -/
def close (p : Pen) (s : String) : Pen := (p.write s.toList).afterWord

/-- Writes a mark, after a space where one is needed. -/
def word (p : Pen) (s : String) : Pen := (if p.spaced then p else p.write [' ']).close s

/-- Writes the mark of an item, which may stand before the first item of a collection in the
same line. -/
def bullet (p : Pen) (s : String) : Pen := { p.word s with indenting := p.indenting }

/-- Starts a new line. -/
def lineBreak (p : Pen) : Pen :=
  { text := p.text.push '\n', column := 0, spaced := true, indenting := true }

/-- Moves to a column, in a new line unless the line has nothing but indentation yet. -/
def indentTo (p : Pen) (indent : Nat) : Pen :=
  let p :=
    if !p.indenting || indent < p.column || (p.column = indent && !p.spaced) then p.lineBreak
    else p
  if p.column < indent then
    { p.write (List.replicate (indent - p.column) ' ') with spaced := true }
  else p

end Pen

end PipelineManifest.Yaml
