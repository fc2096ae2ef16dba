import PipelineManifest.Fault

/-!
# `PipelineManifest.Json`: reports as JSON

Reports are written over several lines, two columns further in for each level, and in ASCII
alone: all other characters are escaped by their UTF-16 units.

* `Json`: the documents.
* `Json.ofValue`: a value as a document.
* `Json.render`: the text of a document.
-/

set_option autoImplicit false

namespace PipelineManifest

open Number (Binary64)

/-- A JSON document. Fields of an object keep their order. -/
inductive Json where
  | null
  | bool (b : Bool)
  | int (i : Int)
  | float (x : Binary64)
  | str (s : String)
  | array (items : List Json)
  | object (fields : List (String × Json))
  deriving Inhabited

namespace Json

/-! ### Values -/

/-- A number as a document spells it. -/
def floatText : Binary64 → String
  | .nan => "NaN"
  | .infinity negative => if negative then "-Infinity" else "Infinity"
  | x => x.text

/-- A whole number that can be written. -/
def writable (i : Int) : Outcome Int :=
  if Number.isWritable i then .ok i else .error .invalidValue

/-- The text of a key; containers, octets, dates and times can be no keys. -/
def keyText : Value → Outcome String
  | .str s => .ok s
  | .int i => return toString (← writable i)
  | .float x => .ok (floatText x)
  | .bool b => .ok (if b then "true" else "false")
  | .null => .ok "null"
  | _ => .error .wrongKind

mutual

/-- A value as a document. Octets, dates, times and sets have no form, and neither has a
container that occurs inside itself or a number of too many digits. -/
def ofValue : Value → Outcome Json
  | .null => .ok .null
  | .bool b => .ok (.bool b)
  | .int i => return .int (← writable i)
  | .float x => .ok (.float x)
  | .str s => .ok (.str s)
  | .seq items | .tuple items => do return .array (← ofItems items)
  | .map entries => do return .object (← ofEntries entries)
  | .back _ => .error .invalidValue
  | .bytes _ | .date _ | .time _ | .set _ => .error .wrongKind

/-- `ofValue` on the items of a sequence. -/
def ofItems : List Value → Outcome (List Json)
  | [] => .ok []
  | v :: vs => do return (← ofValue v) :: (← ofItems vs)

/-- `ofValue` on the entries of a mapping. -/
def ofEntries : List (Value × Value) → Outcome (List (String × Json))
  | [] => .ok []
  | (k, v) :: es => do return (← keyText k, ← ofValue v) :: (← ofEntries es)

end

/-! ### Text -/

/-- The escape of a UTF-16 unit. -/
def unitEscape (n : Nat) : List Char := '\\' :: 'u' :: Text.hexDigits 4 n

/-- A character of a text, escaped where it has to be. -/
def escapedChar (c : Char) : List Char :=
  match c with
  | '"' => ['\\', '"']
  | '\\' => ['\\', '\\']
  | '\n' => ['\\', 'n']
  | '\r' => ['\\', 'r']
  | '\t' => ['\\', 't']
  | '\x08' => ['\\', 'b']
  | '\x0c' => ['\\', 'f']
  | c =>
    let n := c.toNat
    if ' ' ≤ c && c ≤ '~' then [c]
    else if n < 0x10000 then unitEscape n
    else
      -- A character beyond the first plane takes two units.
      let n := n - 0x10000
      unitEscape (0xD800 + n / 0x400) ++ unitEscape (0xDC00 + n % 0x400)

/-- A text in quotes. -/
def quotedText (s : String) : String :=
  String.ofList ('"' :: s.toList.flatMap escapedChar ++ ['"'])

/-- A new line at a level. -/
def newLine (level : Nat) : String := String.ofList ('\n' :: List.replicate (2 * level) ' ')

/-- Parts in brackets, each in a line of its own. -/
def bracketed (opening closing : String) (level : Nat) (parts : List String) : String :=
  if parts.isEmpty then opening ++ closing
  else
    opening ++ newLine (level + 1) ++ ("," ++ newLine (level + 1)).intercalate parts
      ++ newLine level ++ closing

mutual

/-- The text of a document that stands `level` levels deep. -/
def renderAt (level : Nat) : Json → String
  | null => "null"
  | bool b => if b then "true" else "false"
  | int i => toString i
  | float x => floatText x
  | str s => quotedText s
  | array items => bracketed "[" "]" level (renderItems (level + 1) items)
  | object fields => bracketed "\x7b" "\x7d" level (renderFields (level + 1) fields)

/-- The texts of the items of an array. -/
def renderItems (level : Nat) : List Json → List String
  | [] => []
  | j :: js => renderAt level j :: renderItems level js

/-- The texts of the fields of an object. -/
def renderFields (level : Nat) : List (String × Json) → List String
  | [] => []
  | (k, j) :: fs => (quotedText k ++ ": " ++ renderAt level j) :: renderFields level fs

end

/-- The text of a document. -/
def render (j : Json) : String := renderAt 0 j

end Json

end PipelineManifest
