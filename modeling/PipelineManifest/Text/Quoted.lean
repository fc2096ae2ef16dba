import PipelineManifest.Text.Printable

/-!
# `PipelineManifest.Text.Quoted`: texts and octets in quotes

Messages show a text in quotes. The quote is the apostrophe, unless the text holds an
apostrophe and no double quote. The quote in use and the backslash are escaped, line feed,
carriage return and tab have short escapes, printable characters stand for themselves, and
every other character is written by its number in two, four or eight hexadecimal digits.
Octets are shown the same way, after a `b`, with ASCII alone standing for itself.

* `quoted`: a text in quotes.
* `quotedOctets`: a sequence of octets in quotes.
* `hexDigits`: a number in a fixed count of hexadecimal digits.
-/

set_option autoImplicit false

namespace PipelineManifest.Text

/-- The hexadecimal digit of `d`, in lower case; `d` is taken modulo sixteen. -/
def hexDigit (d : Nat) : Char :=
  let d := d % 16
  if d < 10 then Char.ofNat (0x30 + d) else Char.ofNat (0x61 + d - 10)

/-- The last `width` hexadecimal digits of `n`. -/
def hexDigits : (width n : Nat) → List Char
  | 0, _ => []
  | width + 1, n => hexDigits width (n / 16) ++ [hexDigit n]

@[simp] theorem length_hexDigits (width n : Nat) : (hexDigits width n).length = width := by
  induction width generalizing n with
  | zero => rfl
  | succ width ih => simp [hexDigits, ih]

/-- The quote around a text with these characters. -/
def quoteFor (cs : List Char) : Char :=
  if cs.contains '\'' && !cs.contains '"' then '"' else '\''

/-- A character that is not printable, by its number. -/
def numbered (c : Char) : List Char :=
  let n := c.toNat
  if n < 0x100 then '\\' :: 'x' :: hexDigits 2 n
  else if n < 0x10000 then '\\' :: 'u' :: hexDigits 4 n
  else '\\' :: 'U' :: hexDigits 8 n

/-- How one character is written between two quotes `q`. -/
def escaped (q : Char) (shown : Char → Bool) (c : Char) : List Char :=
  if c = q || c = '\\' then ['\\', c]
  else if c = '\n' then ['\\', 'n']
  else if c = '\r' then ['\\', 'r']
  else if c = '\t' then ['\\', 't']
  else if shown c then [c]
  else numbered c

/-- A text in quotes. -/
def quoted (s : String) : String :=
  let cs := s.toList
  let q := quoteFor cs
  String.ofList (q :: cs.flatMap (escaped q isPrintable) ++ [q])

/-- Octets in quotes; an octet outside printable ASCII is written by its number. -/
def quotedOctets (octets : List UInt8) : String :=
  let cs := octets.map fun o => Char.ofNat o.toNat
  let q := quoteFor cs
  let shown := fun (c : Char) => 0x20 ≤ c.toNat && c.toNat < 0x7F
  String.ofList ('b' :: q :: cs.flatMap (escaped q shown) ++ [q])

end PipelineManifest.Text
