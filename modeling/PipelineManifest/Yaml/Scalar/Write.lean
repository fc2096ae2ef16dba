import PipelineManifest.Text.Quoted
import PipelineManifest.Yaml.Pen
import PipelineManifest.Yaml.Scalar.Style

/-!
# `PipelineManifest.Yaml.Scalar.Write`: writing scalars

Long scalars are broken at single spaces once a line is full; between double quotes also after
an escape, where a backslash hides the break.

* `writePlain`, `writeSingleQuoted`, `writeDoubleQuoted`, `writeLiteral`: one style each.
* `ScalarStyle.write`: a scalar in its style.
-/

set_option autoImplicit false

namespace PipelineManifest.Yaml

/-- The parts of a text: runs of spaces, runs of line feeds, apostrophes, and runs of all other
characters. -/
inductive Part where
  | spaces (n : Nat)
  | breaks (n : Nat)
  | apostrophe
  | word (cs : List Char)

/-- A part with one more character in front, or the character as a part of its own. -/
def Part.cons (c : Char) : List Part → List Part
  | .spaces n :: ps => if c = ' ' then .spaces (n + 1) :: ps else single c :: .spaces n :: ps
  | .breaks n :: ps => if c = '\n' then .breaks (n + 1) :: ps else single c :: .breaks n :: ps
  | .word cs :: ps =>
    if c = ' ' || c = '\n' || c = '\'' then single c :: .word cs :: ps else .word (c :: cs) :: ps
  | ps => single c :: ps
where
  /-- A part of one character. -/
  single (c : Char) : Part :=
    if c = ' ' then .spaces 1
    else if c = '\n' then .breaks 1
    else if c = '\'' then .apostrophe
    else .word [c]

/-- The parts of a text. -/
def partsOf (cs : List Char) : List Part := cs.foldr Part.cons []

/-- Writes line feeds of a quoted text, where a single one is written as two. -/
def writeBreaks : Nat → Pen → Pen
  | 0, p => p
  | n + 1, p => writeBreaks n p.lineBreak

/-- A plain scalar; one that starts the text is never empty. -/
def writePlain (split : Bool) (indent : Nat) (cs : List Char) (p : Pen) : Pen :=
  let p := if p.spaced then p else p.write [' ']
  (partsOf cs).foldl writePart p.afterWord
where
  /-- Writes a part; a single space may become a break. -/
  writePart (p : Pen) : Part → Pen
    | .spaces n =>
      if n = 1 && lineWidth < p.column && split then (p.indentTo indent).afterWord
      else p.write (List.replicate n ' ')
    | .breaks n => writeBreaks n p
    | .apostrophe => p.write ['\'']
    | .word cs => p.write cs

/-- The parts of a single-quoted scalar, of which `first` says whether one is the first. -/
def writeQuotedParts (split : Bool) (indent : Nat) (first : Bool) : List Part → Pen → Pen
  | [], p => p
  | part :: parts, p =>
    let p := match part with
      | .spaces n =>
        if n = 1 && lineWidth < p.column && split && !first && !parts.isEmpty then
          p.indentTo indent
        else p.write (List.replicate n ' ')
      | .breaks n => (writeBreaks (n + 1) p).indentTo indent
      | .apostrophe => p.write ['\'', '\'']
      | .word cs => p.write cs
    writeQuotedParts split indent false parts p

/-- A scalar between single quotes. -/
def writeSingleQuoted (split : Bool) (indent : Nat) (cs : List Char) (p : Pen) : Pen :=
  (writeQuotedParts split indent true (partsOf cs) (p.word "'")).close "'"

/-- The letter of an escape. -/
def escapeLetter? (c : Char) : Option Char :=
  match c with
  | '\x00' => some '0'
  | '\x07' => some 'a'
  | '\x08' => some 'b'
  | '\t' => some 't'
  | '\n' => some 'n'
  | '\x0b' => some 'v'
  | '\x0c' => some 'f'
  | '\r' => some 'r'
  | '\x1b' => some 'e'
  | '"' => some '"'
  | '\\' => some '\\'
  | '\x85' => some 'N'
  | '\xa0' => some '_'
  | '\u2028' => some 'L'
  | '\u2029' => some 'P'
  | _ => none

/-- The escape of a character, by its letter or by its number. -/
def escapeOf (c : Char) : List Char :=
  match escapeLetter? c with
  | some letter => ['\\', letter]
  | none =>
    let digits (width : Nat) := (Text.hexDigits width c.toNat).map Char.toUpper
    if c.toNat ≤ 0xFF then '\\' :: 'x' :: digits 2
    else if c.toNat ≤ 0xFFFF then '\\' :: 'u' :: digits 4
    else '\\' :: 'U' :: digits 8

/-- Whether a character stands for itself between double quotes. -/
def isUnescaped (c : Char) : Bool := ' ' ≤ c && c ≤ '~' && c ≠ '"' && c ≠ '\\'

/-- A double-quoted scalar from a character on. `run` are the characters that have been read
and not yet written; `first` says whether the character is the first one. -/
def writeEscaped (split : Bool) (indent : Nat) (run : List Char) (first : Bool) :
    List Char → Pen → Pen
  | [], p => p.write run
  | c :: cs, p =>
    let canBreak := split && !first && !cs.isEmpty
    if isUnescaped c then
      -- a line is broken before a space, and before the first character after an escape
      if canBreak && (c = ' ' || run.isEmpty) && lineWidth < p.column + run.length then
        writeEscaped split indent [c] false cs (breakBefore indent c (p.write run))
      else writeEscaped split indent (run ++ [c]) false cs p
    else
      let p := (p.write run).write (escapeOf c)
      -- behind an escape the line may be one column longer
      if canBreak && lineWidth + 1 < p.column then
        writeEscaped split indent [] false cs (breakBefore indent (cs.headD 'x') p)
      else writeEscaped split indent [] false cs p
where
  /-- Breaks the line before a character; a space at the start of a line has to be escaped. -/
  breakBefore (indent : Nat) (c : Char) (p : Pen) : Pen :=
    let p := ((p.write ['\\']).indentTo indent).afterWord
    if c = ' ' then p.write ['\\'] else p

/-- A scalar between double quotes. -/
def writeDoubleQuoted (split : Bool) (indent : Nat) (cs : List Char) (p : Pen) : Pen :=
  (writeEscaped split indent [] true cs (p.word "\"")).close "\""

/-- The lines of a text, without the breaks that end them. -/
def linesOf : List Char → List (List Char)
  | [] => []
  | c :: cs =>
    if c = '\n' then [] :: linesOf cs
    else
      match linesOf cs with
      | [] => [[c]]
      | line :: lines => (c :: line) :: lines

/-- A literal block of lines, each of which ends with a break. -/
def writeLiteral (indent : Nat) (cs : List Char) (p : Pen) : Pen :=
  (linesOf cs).foldl (fun p line => ((p.indentTo indent).write line).lineBreak)
    (p.word "|").lineBreak

/-- A scalar in its style; one that is a key without a mark is not broken. -/
def ScalarStyle.write (s : ScalarStyle) (key : Bool) (indent : Nat) (text : String) (p : Pen) :
    Pen :=
  let cs := text.toList
  match s with
  | .plain => writePlain (!key) indent cs p
  | .singleQuoted => writeSingleQuoted (!key) indent cs p
  | .doubleQuoted => writeDoubleQuoted (!key) indent cs p
  | .literal => writeLiteral indent cs p

end PipelineManifest.Yaml
