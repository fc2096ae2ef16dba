import PipelineManifest.Yaml.Token.Mark
import PipelineManifest.Yaml.Token.Scalar

/-!
# `PipelineManifest.Yaml.Token.Scan`: telling the tokens of a text apart

A key of a mapping need not be marked: it is a key because a colon follows on the same line.
So a token that may start a key is held back until that is decided, and the tokens that open a
mapping and mark its key are then put in front of it. Indentation opens and closes block
collections.

* `KeyCandidate`: a token that may turn out to start a key.
* `ScanState`: the position, the tokens that are held back, and the open collections.
* `ScanState.fetch`: reads the next token, and those that it implies.
* `Token.scan`: the tokens of a text.
-/

set_option autoImplicit false

namespace PipelineManifest.Yaml

/-- A token that may turn out to start a key. A required one stands where a block mapping
expects a key. -/
structure KeyCandidate where
  /-- How many tokens come before it. -/
  number : Nat
  required : Bool
  index : Nat
  line : Nat
  column : Nat

/-- The most characters between the start of a key and its colon. -/
def maxKeyLength : Nat := 1024

/-- The state of reading tokens. -/
structure ScanState where
  cursor : Cursor
  /-- How many brackets are open. -/
  flowLevel : Nat := 0
  /-- Tokens that have been read and not yet passed on. -/
  held : List Token := []
  /-- How many tokens have been passed on. -/
  passed : Nat := 0
  /-- The column of the innermost block collection, and of those around it. -/
  indent : Int := -1
  outerIndents : List Int := []
  /-- Whether a key may start at the position. -/
  keyAllowed : Bool := true
  /-- The candidates for keys, at most one for each level of brackets. -/
  candidates : List (Nat × KeyCandidate) := []
  finished : Bool := false

namespace ScanState

/-- Adds a token to those that are held back. -/
def push (s : ScanState) (t : Token) : ScanState := { s with held := s.held ++ [t] }

/-- Puts a token before the candidate with the given number. -/
def insertAt (s : ScanState) (number : Nat) (t : Token) : ScanState :=
  { s with held := s.held.insertIdx (number - s.passed) t }

/-- Whether a candidate can no longer be a key: its line has ended or it is too long. -/
def isStale (s : ScanState) (k : KeyCandidate) : Bool :=
  k.line ≠ s.cursor.line || k.index + maxKeyLength < s.cursor.index

/-- Drops the candidates that can no longer be keys; a required one must not be among them. -/
def dropStale (s : ScanState) : Except Defect ScanState :=
  if s.candidates.any fun (_, k) => s.isStale k && k.required then .error .rejected
  else .ok { s with candidates := s.candidates.filter fun (_, k) => !s.isStale k }

/-- Drops the candidate of the current level; it must not be a required one. -/
def dropCandidate (s : ScanState) : Except Defect ScanState :=
  if s.candidates.any fun (level, k) => level = s.flowLevel && k.required then .error .rejected
  else .ok { s with candidates := s.candidates.filter fun (level, _) => level ≠ s.flowLevel }

/-- Makes the next token a candidate, if a key may start here. -/
def saveCandidate (s : ScanState) : Except Defect ScanState :=
  if !s.keyAllowed then .ok s
  else do
    let s ← s.dropCandidate
    let candidate : KeyCandidate := {
      number := s.passed + s.held.length
      required := s.flowLevel = 0 && s.indent = s.cursor.column
      index := s.cursor.index
      line := s.cursor.line
      column := s.cursor.column }
    return { s with candidates := s.candidates ++ [(s.flowLevel, candidate)] }

/-- Closes the block collections that are indented more than `column`, innermost first. -/
def closeBlocks (column : Int) (s : ScanState) : ScanState :=
  go (s.outerIndents.length + 1) s
where
  /-- Every collection that is closed is one of those that are open. -/
  go : (fuel : Nat) → ScanState → ScanState
    | 0, s => s
    | fuel + 1, s =>
      if s.flowLevel = 0 && column < s.indent then
        go fuel {
          s.push .blockEnd with
          indent := s.outerIndents.headD (-1)
          outerIndents := s.outerIndents.tail }
      else s

/-- Whether a column opens a block collection. -/
def opensBlock (s : ScanState) (column : Nat) : Bool := s.indent < column

/-- Opens a block collection at a column. -/
def openBlock (s : ScanState) (column : Nat) : ScanState :=
  { s with outerIndents := s.indent :: s.outerIndents, indent := column }

/-- Opens a block collection at the position if it is indented more than the one around it. -/
def openBlockHere (s : ScanState) (t : Token) : ScanState :=
  if s.opensBlock s.cursor.column then (s.openBlock s.cursor.column).push t else s

/-- Moves to the next token: over spaces, comments and breaks. Outside brackets a key may
start after a break. -/
def toNextToken : (fuel : Nat) → ScanState → ScanState
  | 0, s => s
  | fuel + 1, s =>
    let c := s.cursor.skipSpaces
    let c := if c.next = '#' then c.skipLine else c
    match c.lineBreak with
    | (some _, c) =>
      toNextToken fuel { s with cursor := c, keyAllowed := s.keyAllowed || s.flowLevel = 0 }
    | (none, c) => { s with cursor := c }

/-! ### One kind of token each -/

/-- Passes over `n` characters that make the token `t`. -/
def take (n : Nat) (t : Token) (s : ScanState) : ScanState :=
  { s.push t with cursor := s.cursor.advance n }

/-- The end of the text closes everything. -/
def fetchEnd (s : ScanState) : Except Defect ScanState := do
  let s ← (s.closeBlocks (-1)).dropCandidate
  return { s.push .textEnd with keyAllowed := false, candidates := [], finished := true }

/-- A directive. -/
def fetchDirective (s : ScanState) : Except Defect ScanState := do
  let s ← (s.closeBlocks (-1)).dropCandidate
  let (directive, c) ← readDirective s.cursor
  return { s.push (.directive directive) with keyAllowed := false, cursor := c }

/-- A separator of documents. -/
def fetchSeparator (t : Token) (s : ScanState) : Except Defect ScanState := do
  let s ← (s.closeBlocks (-1)).dropCandidate
  return { s.take 3 t with keyAllowed := false }

/-- An opening bracket, which may start a key. -/
def fetchFlowStart (t : Token) (s : ScanState) : Except Defect ScanState := do
  -- The bracket is a candidate of the level outside of it.
  let s ← s.saveCandidate
  return { s.take 1 t with flowLevel := s.flowLevel + 1, keyAllowed := true }

/-- A closing bracket. -/
def fetchFlowEnd (t : Token) (s : ScanState) : Except Defect ScanState := do
  let s ← s.dropCandidate
  return { s.take 1 t with flowLevel := s.flowLevel - 1, keyAllowed := false }

/-- A comma between brackets. -/
def fetchFlowEntry (s : ScanState) : Except Defect ScanState := do
  let s ← s.dropCandidate
  return { s.take 1 .flowEntry with keyAllowed := true }

/-- The dash of a sequence, which outside brackets stands where a key may start. -/
def fetchBlockEntry (s : ScanState) : Except Defect ScanState := do
  if s.flowLevel = 0 && !s.keyAllowed then throw .rejected
  let s := if s.flowLevel = 0 then s.openBlockHere .blockSequenceStart else s
  let s ← s.dropCandidate
  return { s.take 1 .blockEntry with keyAllowed := true }

/-- The mark of a key, which outside brackets stands where a key may start. -/
def fetchKey (s : ScanState) : Except Defect ScanState := do
  if s.flowLevel = 0 && !s.keyAllowed then throw .rejected
  let s := if s.flowLevel = 0 then s.openBlockHere .blockMappingStart else s
  let s ← s.dropCandidate
  return { s.take 1 .key with keyAllowed := s.flowLevel = 0 }

/-- The colon after a candidate, which is thereby a key. -/
def valueOfCandidate (k : KeyCandidate) (s : ScanState) : ScanState :=
  let s := { s with candidates := s.candidates.filter fun (level, _) => level ≠ s.flowLevel }
  -- The tokens go in front of one that has been read already. The mark of the mapping is put
  -- in last, so that it comes before the mark of the key.
  let s := s.insertAt k.number .key
  let s :=
    if s.flowLevel = 0 && s.opensBlock k.column then
      (s.openBlock k.column).insertAt k.number .blockMappingStart
    else s
  { s.take 1 .value with keyAllowed := false }

/-- The colon after a marked key, or after none. -/
def valueAlone (s : ScanState) : Except Defect ScanState := do
  if s.flowLevel = 0 && !s.keyAllowed then throw .rejected
  let s := if s.flowLevel = 0 then s.openBlockHere .blockMappingStart else s
  let s ← { s with keyAllowed := s.flowLevel = 0 }.dropCandidate
  return s.take 1 .value

/-- The colon before a value. -/
def fetchValue (s : ScanState) : Except Defect ScanState :=
  match s.candidates.find? fun (level, _) => level = s.flowLevel with
  | some (_, k) => .ok (s.valueOfCandidate k)
  | none => s.valueAlone

/-- A token that is read by `reader` and may start a key. -/
def fetchCandidate {α : Type} (reader : Reader α) (token : α → Token) (s : ScanState) :
    Except Defect ScanState := do
  let s ← s.saveCandidate
  let (a, c) ← reader s.cursor
  return { s.push (token a) with cursor := c, keyAllowed := false }

/-- A block, which is no key. -/
def fetchBlock (s : ScanState) : Except Defect ScanState := do
  let s ← s.dropCandidate
  let (text, c) ← readBlock s.indent s.cursor
  return { s.push (.scalar text false) with cursor := c, keyAllowed := true }

/-- A plain scalar; a key may start after it only if a break follows. -/
def fetchPlain (s : ScanState) : Except Defect ScanState := do
  let s ← s.saveCandidate
  let ((text, broken), c) := readPlain (s.flowLevel ≠ 0) s.indent s.cursor
  return { s.push (.scalar text true) with cursor := c, keyAllowed := broken }

/-- Characters that cannot start a plain scalar by themselves. -/
def isIndicator (c : Char) : Bool :=
  "-?:,[]\x7b\x7d#&*!|>'\"%@\x60".toList.contains c

/-- Whether a plain scalar can start at the position. -/
def startsPlain (s : ScanState) : Bool :=
  let ch := s.cursor.next
  (!isBlankOrEnd ch && !isIndicator ch)
    || (!isBlankOrEnd (s.cursor.peek 1)
      && (ch = '-' || (s.flowLevel = 0 && (ch = '?' || ch = ':'))))

/-- Whether the mark at the position stands alone; inside brackets it always does. -/
def standsAlone (s : ScanState) : Bool := s.flowLevel ≠ 0 || isBlankOrEnd (s.cursor.peek 1)

/-- The token at the position. -/
def fetchHere (s : ScanState) : Except Defect ScanState :=
  let c := s.cursor
  let atStart := c.column = 0
  match c.next with
  | '\x00' => s.fetchEnd
  | '%' => if atStart then s.fetchDirective else .error .rejected
  | '-' =>
    -- A hyphen separates documents, marks an item, or starts a word such as `-1`.
    if atStart && c.atMark '-' then s.fetchSeparator .documentStart
    else if isBlankOrEnd (c.peek 1) then s.fetchBlockEntry
    else s.fetchPlain
  | '.' => if atStart && c.atMark '.' then s.fetchSeparator .documentEnd else s.fetchPlain
  | '[' => s.fetchFlowStart .flowSequenceStart
  | '\x7b' => s.fetchFlowStart .flowMappingStart
  | ']' => s.fetchFlowEnd .flowSequenceEnd
  | '\x7d' => s.fetchFlowEnd .flowMappingEnd
  | ',' => s.fetchFlowEntry
  | '?' => if s.standsAlone then s.fetchKey else s.fetchPlain
  | ':' => if s.standsAlone then s.fetchValue else s.fetchPlain
  | '*' => s.fetchCandidate readName .alias
  | '&' => s.fetchCandidate readName .anchor
  | '!' => s.fetchCandidate readTag .tag
  | '|' | '>' => if s.flowLevel = 0 then s.fetchBlock else .error .rejected
  | '\'' | '"' => s.fetchCandidate readQuoted (.scalar · false)
  | _ => if s.startsPlain then s.fetchPlain else .error .rejected

/-- Reads the next token and those that it implies. -/
def fetch (s : ScanState) : Except Defect ScanState := do
  -- The break that makes a candidate stale has been passed over just now.
  let s ← (s.toNextToken (s.cursor.rest.length + 1)).dropStale
  (s.closeBlocks s.cursor.column).fetchHere

/-- Whether the first token that is held back may still turn out to start a key. -/
def isUndecided (s : ScanState) : Bool :=
  s.candidates.any fun (_, k) => k.number = s.passed

/-- The tokens from a state on. Every step reads a token or passes one on. -/
def run : (fuel : Nat) → ScanState → TokenStream
  | 0, _ => ⟨[], none⟩
  | fuel + 1, s =>
    if s.finished then ⟨s.held, none⟩
    else
      match s.held with
      | [] =>
        match s.fetch with
        | .ok s => run fuel s
        | .error defect => ⟨[], some defect⟩
      | token :: rest =>
        match s.dropStale with
        | .error defect => ⟨[], some defect⟩
        | .ok s =>
          -- The tokens that a colon would put in front of this one are not known yet.
          if s.isUndecided then
            match s.fetch with
            | .ok s => run fuel s
            | .error defect => ⟨[], some defect⟩
          else
            let stream := run fuel { s with held := rest, passed := s.passed + 1 }
            { stream with tokens := token :: stream.tokens }

end ScanState

/-- The position at the start of a text, after a byte order mark. -/
def Cursor.start (cs : List Char) : Cursor :=
  let c : Cursor := { rest := cs }
  if c.next = '\uFEFF' then c.step else c

/-- The tokens of a text. A character makes at most four tokens: those that open and close a
block collection, the mark of a key, and its own. -/
def Token.scan (cs : List Char) : TokenStream :=
  ScanState.run (8 * cs.length + 32) { cursor := Cursor.start cs }

end PipelineManifest.Yaml
