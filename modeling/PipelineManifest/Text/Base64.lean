/-!
# `PipelineManifest.Text.Base64`: octets as letters

Three octets are written as four letters, digits or signs of an alphabet of 64; equals signs
fill up the last group. Reading skips every character that is not of the alphabet and stops
after a group that has been filled up.

* `decodeBase64?`: the octets that a text stands for.
* `encodeBase64`: the text of some octets, in lines.
-/

set_option autoImplicit false

namespace PipelineManifest.Text

/-- The alphabet, in the order of its values. -/
def base64Alphabet : List Char :=
  "ABCDEFGHIJKLMNOPQRSTUVWXYZabcdefghijklmnopqrstuvwxyz0123456789+/".toList

/-- The value of a letter of the alphabet. -/
def base64Value? (c : Char) : Option Nat := base64Alphabet.idxOf? c

/-- The octets of a text from a position inside a group on: `got` letters of the group have
been read, `bits` is what the last of them leaves over, and `pads` is how many equals signs
have come since. A group may not end after its first letter, nor without being filled up. -/
def decodeGroups? (got bits pads : Nat) : List Char → Option (List UInt8)
  | [] => if got = 0 then some [] else none
  | c :: cs =>
    if c = '=' then
      if 2 ≤ got && 4 ≤ got + pads + 1 then some []
      else decodeGroups? got bits (if 2 ≤ got then pads + 1 else pads) cs
    else
      match base64Value? c with
      | none => decodeGroups? got bits pads cs
      | some v =>
        match got with
        | 0 => decodeGroups? 1 v 0 cs
        | 1 => (decodeGroups? 2 (v % 16) 0 cs).map ((bits * 4 + v / 16).toUInt8 :: ·)
        | 2 => (decodeGroups? 3 (v % 4) 0 cs).map ((bits * 16 + v / 4).toUInt8 :: ·)
        | _ => (decodeGroups? 0 0 0 cs).map ((bits * 64 + v).toUInt8 :: ·)

/-- The octets that a text stands for. -/
def decodeBase64? (cs : List Char) : Option (List UInt8) := decodeGroups? 0 0 0 cs

/-- The letter of a value. -/
def base64Letter (v : Nat) : Char := base64Alphabet.getD (v % 64) 'A'

/-- The letters of some octets. -/
def base64Letters : List UInt8 → List Char
  | [] => []
  | [a] =>
    let n := a.toNat * 16
    [base64Letter (n / 64), base64Letter n, '=', '=']
  | [a, b] =>
    let n := (a.toNat * 256 + b.toNat) * 4
    [base64Letter (n / 4096), base64Letter (n / 64), base64Letter n, '=']
  | a :: b :: c :: rest =>
    let n := (a.toNat * 256 + b.toNat) * 256 + c.toNat
    base64Letter (n / 262144) :: base64Letter (n / 4096) :: base64Letter (n / 64)
      :: base64Letter n :: base64Letters rest

/-- How many octets one line holds. -/
def octetsPerLine : Nat := 57

/-- The text of some octets, each line ended by a line feed. -/
def encodeLines : (fuel : Nat) → List UInt8 → List Char
  | 0, _ => []
  | _ + 1, [] => []
  | fuel + 1, octets =>
    base64Letters (octets.take octetsPerLine)
      ++ '\n' :: encodeLines fuel (octets.drop octetsPerLine)

/-- The text of some octets, in lines. -/
def encodeBase64 (octets : List UInt8) : String :=
  String.ofList (encodeLines (octets.length + 1) octets)

end PipelineManifest.Text
