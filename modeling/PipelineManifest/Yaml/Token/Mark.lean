import PipelineManifest.Number.Reading
import PipelineManifest.Yaml.Token.Basic

/-!
# `PipelineManifest.Yaml.Token.Mark`: anchors, tags and directives

* `readName`: the name of an anchor or an alias.
* `readTag`: a tag.
* `readDirective`: a directive with the rest of its line.
-/

set_option autoImplicit false

namespace PipelineManifest.Yaml

/-- A name of at least one character. -/
def nameText : Reader String := fun c =>
  let (cs, c) := c.takeWhile isNameChar
  if cs.isEmpty then .error .rejected else .ok (String.ofList cs, c)

/-- Characters that may follow the name of an anchor or an alias. -/
def endsName (c : Char) : Bool :=
  isBlankOrEnd c || "?:,]\x7d%@\x60".toList.contains c

/-- The name of an anchor or an alias, at its mark. -/
def readName : Reader String := fun c => do
  let (name, c) ← nameText c.step
  if endsName c.next then return (name, c) else throw .rejected

/-- Characters of which tags are made. -/
def isTagChar (c : Char) : Bool :=
  c.isAlphanum || "-;/?:@&=+$,_.!~*'()[]%".toList.contains c

/-- The octets that are written by number, each a percent sign and two digits. -/
def escapedOctets : (fuel : Nat) → Reader (List UInt8)
  | 0, c => .ok ([], c)
  | fuel + 1, c =>
    if c.next = '%' then
      let digits := c.step.rest.take 2
      match hexNumber? digits with
      | some n =>
        if digits.length < 2 then .error .rejected
        else do
          let (rest, c) ← escapedOctets fuel (c.advance 3)
          return (n.toUInt8 :: rest, c)
      | none => .error .rejected
    else .ok ([], c)

/-- The text of a tag, in which octets written by number stand for the text that they encode. -/
def tagText : (fuel : Nat) → Reader (List Char)
  | 0, c => .ok ([], c)
  | fuel + 1, c =>
    if c.next = '%' then do
      let (octets, c) ← escapedOctets (c.rest.length + 1) c
      let some text := String.fromUTF8? ⟨octets.toArray⟩ | throw .rejected
      let (rest, c) ← tagText fuel c
      return (text.toList ++ rest, c)
    else
      let (run, c) := c.takeWhile fun ch => isTagChar ch && ch ≠ '%'
      if run.isEmpty then .ok ([], c)
      else do
        let (rest, c) ← tagText fuel c
        return (run ++ rest, c)

/-- The text of a tag, which has at least one character as written. -/
def readTagText : Reader String := fun c => do
  if !isTagChar c.next then throw .rejected
  let (cs, c) ← tagText (c.rest.length + 1) c
  return (String.ofList cs, c)

/-- The handle of a tag: one exclamation mark before a space, else a name between two of them. -/
def readHandle : Reader String := fun c =>
  if c.next ≠ '!' then .error .rejected
  else if c.peek 1 = ' ' then .ok ("!", c.step)
  else
    let (name, after) := c.step.takeWhile isNameChar
    if after.next = '!' then .ok (String.ofList ('!' :: name ++ ['!']), after.step)
    else .error .rejected

/-- Whether another exclamation mark comes in the same word, so that the tag has a handle. -/
def hasHandle (c : Cursor) : Bool :=
  (c.step.rest.takeWhile (!isSpaceOrEnd ·)).contains '!'

/-- A tag, at its exclamation mark. -/
def readTag : Reader WrittenTag := fun c => do
  let first := c.peek 1
  let (tag, c) ←
    if first = '<' then do
      let (text, c) ← readTagText (c.advance 2)
      if c.next = '>' then pure (WrittenTag.mk none text, c.step) else throw .rejected
    else if isBlankOrEnd first then pure (WrittenTag.mk none "!", c.step)
    else if hasHandle c then do
      let (handle, c) ← readHandle c
      let (text, c) ← readTagText c
      pure (WrittenTag.mk (some handle) text, c)
    else do
      let (text, c) ← readTagText c.step
      pure (WrittenTag.mk (some "!") text, c)
  if isSpaceOrEnd c.next then return (tag, c) else throw .rejected

/-- A number of a version. -/
def directiveNumber : Reader Nat := fun c =>
  let (digits, c) := c.takeWhile Char.isDigit
  if digits.isEmpty then .error .rejected
  else
    match Number.readInt? 10 digits with
    | some n => .ok (n.toNat, c)
    | none => .error .noNumber

/-- The version of the language. -/
def versionDirective : Reader Directive := fun c => do
  let (major, c) ← directiveNumber c.skipSpaces
  if c.next ≠ '.' then throw .rejected
  let (minor, c) ← directiveNumber c.step
  if isSpaceOrEnd c.next then return (.version major minor, c) else throw .rejected

/-- A handle for tags and what it stands for. -/
def handleDirective : Reader Directive := fun c => do
  let (name, c) ← readHandle c.skipSpaces
  if c.next ≠ ' ' then throw .rejected
  let (meaning, c) ← readTagText c.skipSpaces
  if isSpaceOrEnd c.next then return (.handle name meaning, c) else throw .rejected

/-- A directive with the rest of its line, at its percent sign. -/
def readDirective : Reader Directive := fun c => do
  let (name, c) ← nameText c.step
  if !isSpaceOrEnd c.next then throw .rejected
  let (directive, c) ←
    if name = "YAML" then versionDirective c
    else if name = "TAG" then handleDirective c
    else pure (Directive.other, c.skipLine)
  let ((), c) ← endLine c
  return (directive, c)

end PipelineManifest.Yaml
