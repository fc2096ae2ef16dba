import PipelineManifest.Text.Blank

/-!
# `PipelineManifest.Table.Markup`: styled text in the cells of a table

A cell is written with style tags in square brackets: `[bold]` opens a style, `[/bold]` closes
the last one of that name and `[/]` the last one. What looks like a tag is one, whether there
is such a style or not. A backslash before a tag makes it plain text. The table shows no
styles, so all that matters here is which characters are left.

* `Piece`, `piecesOf`: a marked-up text as plain pieces and tags.
* `plainOf?`: the characters that are shown; nothing if a tag closes what is not open.
-/

set_option autoImplicit false

namespace PipelineManifest.Table

open Text (trimBlanks)

/-- A piece of a marked-up text. -/
inductive Piece where
  | plain (cs : List Char)
  | tag (cs : List Char)

/-- Whether a character can stand first in a tag. -/
def startsTag (c : Char) : Bool :=
  ('a' ≤ c && c ≤ 'z') || c = '#' || c = '/' || c = '@'

/-- The tag at the front of a text, without its brackets, and the rest. -/
def tagAt? : List Char → Option (List Char × List Char)
  | '[' :: c :: cs =>
    let more := cs.takeWhile fun c => c ≠ '[' && c ≠ ']'
    match cs.drop more.length with
    | ']' :: rest => if startsTag c then some (c :: more, rest) else none
    | _ => none
  | _ => none

/-- A plain piece, in which a backslash before a bracket is not shown. -/
def plainPiece (cs : List Char) : List Piece :=
  if cs.isEmpty then [] else [.plain (unescape cs)]
where
  /-- Leaves out backslashes before brackets. -/
  unescape : List Char → List Char
    | '\\' :: '[' :: cs => '[' :: unescape cs
    | c :: cs => c :: unescape cs
    | [] => []

/-- The pieces of a text, of which `before` has been read. Every step reads a character. -/
def piecesFrom (before : List Char) : (fuel : Nat) → List Char → List Piece
  | 0, cs => plainPiece (before ++ cs)
  | _ + 1, [] => plainPiece before
  | fuel + 1, c :: cs =>
    let slashes := (c :: cs).takeWhile (· = '\\')
    match tagAt? ((c :: cs).drop slashes.length) with
    | some (tag, rest) =>
      -- Two backslashes show one; a single one that is left over hides the tag.
      let half := slashes.length / 2
      plainPiece before
        ++ (if half = 0 then [] else [.plain (List.replicate half '\\')])
        ++ (if slashes.length % 2 = 1 then .plain ('[' :: tag ++ [']']) else .tag tag)
          :: piecesFrom [] fuel rest
    | none =>
      if slashes.isEmpty then piecesFrom (before ++ [c]) fuel cs
      else piecesFrom (before ++ slashes) fuel ((c :: cs).drop slashes.length)

/-- The pieces of a text. -/
def piecesOf (cs : List Char) : List Piece := piecesFrom [] (cs.length + 1) cs

/-- The full names of styles that have short ones. -/
def styleNames : List (String × String) := [
  ("b", "bold"), ("i", "italic"), ("u", "underline"), ("s", "strike"), ("d", "dim"),
  ("r", "reverse"), ("o", "overline"), ("c", "conceal"), ("uu", "underline2")]

/-- The name of a style, by which a closing tag finds it. -/
def styleName (cs : List Char) : String :=
  let name := String.ofList ((trimBlanks cs).map Char.toLower)
  (styleNames.lookup name).getD name

/-- The characters that are shown of some pieces, where `opened` are the open styles from the
last one on. -/
def shownFrom? (opened : List String) : List Piece → Option (List Char)
  | [] => some []
  | .plain cs :: ps => (shownFrom? opened ps).map (cs ++ ·)
  | .tag cs :: ps =>
    match cs.takeWhile (· ≠ '=') with
    | '/' :: name =>
      let name := styleName name
      if name = "" then
        match opened with
        | [] => none
        | _ :: rest => shownFrom? rest ps
      else if opened.contains name then shownFrom? (opened.erase name) ps
      else none
    | name => shownFrom? (styleName name :: opened) ps

/-- Whether a character is left out of every cell. -/
def isDropped (c : Char) : Bool :=
  c = '\x07' || c = '\x08' || c = '\x0b' || c = '\x0c' || c = '\r'

/-- The characters that are shown of a marked-up text. -/
def plainOf? (text : String) : Option (List Char) :=
  (shownFrom? [] (piecesOf text.toList)).map (·.filter (!isDropped ·))

end PipelineManifest.Table
