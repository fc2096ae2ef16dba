/-!
# `PipelineManifest.Text.Utf8`: octets as text

* `Utf8Defect`: why octets are no text.
* `decodeUtf8`: the characters that octets stand for.
* `lineFeeds`: a text with every line ended by a line feed.
-/

set_option autoImplicit false

namespace PipelineManifest.Text

/-- Why octets are no text in UTF-8. -/
inductive Utf8Defect where
  /-- An octet that starts no character. -/
  | startByte
  /-- An octet that does not go on with the character that was started. -/
  | continuationByte
  /-- A character that is not finished. -/
  | endOfData
  deriving DecidableEq, Repr

/-- The words for a defect. -/
def Utf8Defect.reason : Utf8Defect → String
  | startByte => "invalid start byte"
  | continuationByte => "invalid continuation byte"
  | endOfData => "unexpected end of data"

/-- Whether an octet goes on with a character. -/
def isContinuation (b : UInt8) : Bool := 0x80 ≤ b && b < 0xC0

/-- Whether an octet can stand second after the first one of a long form. No character has a
form longer than it needs, none is a surrogate, and none lies beyond the last plane. -/
def isSecond (a b : UInt8) : Bool :=
  isContinuation b
    && (a ≠ 0xE0 || 0xA0 ≤ b) && (a ≠ 0xED || b < 0xA0)
    && (a ≠ 0xF0 || 0x90 ≤ b) && (a ≠ 0xF4 || b < 0x90)

/-- The character of a first octet, of which `bits` bits count, and six bits of each octet
after it. -/
def joinedChar (bits : Nat) (a : UInt8) (rest : List UInt8) : Char :=
  Char.ofNat (rest.foldl (fun n b => n * 64 + b.toNat % 64) (a.toNat % Nat.pow 2 bits))

/-- The characters that octets stand for. -/
def decodeUtf8 : List UInt8 → Except Utf8Defect (List Char)
  | [] => .ok []
  | a :: tail =>
    if a < 0x80 then (decodeUtf8 tail).map (Char.ofNat a.toNat :: ·)
    -- Below 0xC2 stand the octets that go on with a character, and two that start only forms
    -- that are too long.
    else if a < 0xC2 || 0xF4 < a then .error .startByte
    else
      match tail with
      | [] => .error .endOfData
      | b :: tail =>
        if !isSecond a b then .error .continuationByte
        else if a < 0xE0 then (decodeUtf8 tail).map (joinedChar 5 a [b] :: ·)
        else
          match tail with
          | [] => .error .endOfData
          | c :: tail =>
            if !isContinuation c then .error .continuationByte
            else if a < 0xF0 then (decodeUtf8 tail).map (joinedChar 4 a [b, c] :: ·)
            else
              match tail with
              | [] => .error .endOfData
              | d :: tail =>
                if !isContinuation d then .error .continuationByte
                else (decodeUtf8 tail).map (joinedChar 3 a [b, c, d] :: ·)

/-- A text in which every line ends with a line feed, whether it ended with a carriage return,
a line feed, or both. -/
def lineFeeds : List Char → List Char
  | '\r' :: '\n' :: cs => '\n' :: lineFeeds cs
  | '\r' :: cs => '\n' :: lineFeeds cs
  | c :: cs => c :: lineFeeds cs
  | [] => []

end PipelineManifest.Text
