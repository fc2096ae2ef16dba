import Mathlib.Data.List.InsertIdx
import PipelineManifest.Proofs.Outcome
import PipelineManifest.Yaml.Token.Scan

/-!
# `PipelineManifest.Proofs.Yaml.Scanning`: how telling tokens apart fails

Most of what can be wrong with the tokens of a text breaks a rule of the language. There are three
exceptions, all about numbers: an escape can name no character, or be too large to be looked up, and
the version in a directive can be too long. They are among the defects that do not take an explicit
tag (`Defect.IsPlain`). Up to the defect the tokens are as they should be: what looks like a number
or a word for a boolean is that to its end, because no plain scalar ends with a line feed.

* `Defect.IsPlain`, `FailsPlainly`: the defects of texts without explicit tags, and operations that
  have no others.
* `failsPlainly_readTag`, `failsPlainly_readQuoted` and so on: the readers of tokens.
* `getLast?_readPlain`: how a plain scalar ends.
* `ScanState.IsTidy`, `ScanState.IsTidy.fetch`: the invariant of reading tokens, kept by each step.
* `isPlain_scan`: the tokens of a text, and what stops them.
-/

set_option autoImplicit false

namespace PipelineManifest.Yaml

open Outcome (Satisfies)

/-- The defects that a text can have in which no tag is written. All others arise where a tag asks
for what its text or its node is not. -/
def Defect.IsPlain : Defect → Prop
  | .emptyNumber | .noTime | .noBoolean | .noText => False
  | _ => True

/-- An operation that, if it fails, has a defect that does not take a tag. -/
abbrev FailsPlainly {α : Type} (x : Except Defect α) : Prop :=
  Satisfies Defect.IsPlain (fun _ => True) x

theorem FailsPlainly.bind {α β : Type} {x : Except Defect α} {f : α → Except Defect β}
    (h : FailsPlainly x) (hf : ∀ a, FailsPlainly (f a)) : FailsPlainly (x >>= f) :=
  Satisfies.bind h fun a _ => hf a

theorem failsPlainly_endLine (c : Cursor) : FailsPlainly (endLine c) := by
  rw [endLine]
  split
  · split <;> trivial
  · split <;> trivial

/-! ### Anchors, tags and directives -/

theorem failsPlainly_nameText (c : Cursor) : FailsPlainly (nameText c) := by
  rw [nameText]
  dsimp only [Cursor.takeWhile]
  split <;> trivial

theorem failsPlainly_readName (c : Cursor) : FailsPlainly (readName c) := by
  refine (failsPlainly_nameText _).bind fun (name, c) => ?_
  dsimp only
  split <;> trivial

theorem failsPlainly_escapedOctets (fuel : Nat) (c : Cursor) :
    FailsPlainly (escapedOctets fuel c) := by
  induction fuel generalizing c with
  | zero => trivial
  | succ fuel ih =>
    rw [escapedOctets]
    split
    · dsimp only
      split
      · split
        · trivial
        · exact (ih _).bind fun (_, _) => trivial
      · trivial
    · trivial

theorem failsPlainly_tagText (fuel : Nat) (c : Cursor) : FailsPlainly (tagText fuel c) := by
  induction fuel generalizing c with
  | zero => trivial
  | succ fuel ih =>
    rw [tagText]
    split
    · refine (failsPlainly_escapedOctets _ c).bind fun (octets, c) => ?_
      dsimp only
      split
      · exact (ih _).bind fun (_, _) => trivial
      · trivial
    · dsimp only [Cursor.takeWhile]
      split
      · trivial
      · exact (ih _).bind fun (_, _) => trivial

theorem failsPlainly_readTagText (c : Cursor) : FailsPlainly (readTagText c) := by
  rw [readTagText]
  split
  · trivial
  · exact (failsPlainly_tagText _ c).bind fun (_, _) => trivial

theorem failsPlainly_readHandle (c : Cursor) : FailsPlainly (readHandle c) := by
  rw [readHandle]
  split
  · trivial
  split
  · trivial
  · dsimp only [Cursor.takeWhile]
    split <;> trivial

/-- A tag is read in four ways, and the same has to follow in each. -/
theorem failsPlainly_readTag (c : Cursor) : FailsPlainly (readTag c) := by
  have hend : ∀ (tag : WrittenTag) (c : Cursor), FailsPlainly
      (if isSpaceOrEnd c.next then .ok (tag, c) else .error .rejected) := by
    intro tag c
    split <;> trivial
  rw [readTag]
  dsimp only
  split
  · refine (failsPlainly_readTagText _).bind fun (text, c) => ?_
    dsimp only
    split
    · exact hend _ _
    · trivial
  split
  · exact hend _ _
  split
  · refine (failsPlainly_readHandle c).bind fun (handle, c) => ?_
    exact (failsPlainly_readTagText c).bind fun (text, c) => hend _ _
  · exact (failsPlainly_readTagText _).bind fun (text, c) => hend _ _

/-- A version can have too many digits. -/
theorem failsPlainly_directiveNumber (c : Cursor) : FailsPlainly (directiveNumber c) := by
  rw [directiveNumber]
  dsimp only [Cursor.takeWhile]
  split
  · trivial
  · split <;> trivial

theorem failsPlainly_versionDirective (c : Cursor) : FailsPlainly (versionDirective c) := by
  refine (failsPlainly_directiveNumber _).bind fun (major, c) => ?_
  dsimp only
  split
  · trivial
  · refine (failsPlainly_directiveNumber _).bind fun (minor, c) => ?_
    dsimp only
    split <;> trivial

theorem failsPlainly_handleDirective (c : Cursor) : FailsPlainly (handleDirective c) := by
  refine (failsPlainly_readHandle _).bind fun (name, c) => ?_
  dsimp only
  split
  · trivial
  · refine (failsPlainly_readTagText _).bind fun (meaning, c) => ?_
    dsimp only
    split <;> trivial

theorem failsPlainly_readDirective (c : Cursor) : FailsPlainly (readDirective c) := by
  refine (failsPlainly_nameText _).bind fun p => ?_
  obtain ⟨name, c⟩ := p
  dsimp only
  split
  · trivial
  split
  · refine (failsPlainly_versionDirective _).bind fun p => ?_
    obtain ⟨directive, c⟩ := p
    exact (failsPlainly_endLine c).bind fun _ => trivial
  split
  · refine (failsPlainly_handleDirective _).bind fun p => ?_
    obtain ⟨directive, c⟩ := p
    exact (failsPlainly_endLine c).bind fun _ => trivial
  · exact (failsPlainly_endLine _).bind fun _ => trivial

/-! ### Scalars -/

/-- The number of an escape can be none of a character. -/
theorem failsPlainly_character (n : Nat) : FailsPlainly (character n) := by
  rw [character]
  split
  · trivial
  split <;> trivial

theorem failsPlainly_quotedBreaks (fuel : Nat) (c : Cursor) :
    FailsPlainly (quotedBreaks fuel c) := by
  induction fuel generalizing c with
  | zero => trivial
  | succ fuel ih =>
    rw [quotedBreaks]
    split
    · trivial
    · dsimp only
      split
      · exact (ih _).bind fun (_, _) => trivial
      · trivial

theorem failsPlainly_quotedSpaces (c : Cursor) : FailsPlainly (quotedSpaces c) := by
  rw [quotedSpaces]
  dsimp only
  split
  · trivial
  split
  · exact (failsPlainly_quotedBreaks _ _).bind fun (_, _) => trivial
  · trivial

theorem failsPlainly_quotedEscape (c : Cursor) : FailsPlainly (quotedEscape c) := by
  rw [quotedEscape]
  dsimp only
  split
  · trivial
  · split
    · split
      · trivial
      · exact (failsPlainly_character _).bind fun _ => trivial
    · trivial
  · split
    · exact failsPlainly_quotedBreaks _ _
    · trivial

theorem failsPlainly_quotedWord (double : Bool) (fuel : Nat) (c : Cursor) :
    FailsPlainly (quotedWord double fuel c) := by
  induction fuel generalizing c with
  | zero => trivial
  | succ fuel ih =>
    rw [quotedWord]
    dsimp only [Cursor.takeWhile]
    split
    · trivial
    · rename_i step hstep
      -- A piece is a doubled quote, a character that stands for itself, or an escape.
      have hpiece : FailsPlainly step := by
        split at hstep
        · cases hstep
          trivial
        split at hstep
        · cases hstep
          trivial
        split at hstep
        · cases hstep
          exact failsPlainly_quotedEscape _
        · cases hstep
      exact hpiece.bind fun (_, _) => (ih _).bind fun (_, _) => trivial

theorem failsPlainly_quotedRest (double : Bool) (quote : Char) (fuel : Nat) (c : Cursor) :
    FailsPlainly (quotedRest double quote fuel c) := by
  induction fuel generalizing c with
  | zero => trivial
  | succ fuel ih =>
    rw [quotedRest]
    split
    · trivial
    · refine (failsPlainly_quotedSpaces c).bind fun (between, c) => ?_
      refine (failsPlainly_quotedWord double _ c).bind fun (word, c) => ?_
      exact (ih c).bind fun (_, _) => trivial

theorem failsPlainly_readQuoted (c : Cursor) : FailsPlainly (readQuoted c) :=
  (failsPlainly_quotedWord _ _ _).bind fun (_, _) =>
    (failsPlainly_quotedRest _ _ _ _).bind fun (_, _) => trivial

theorem failsPlainly_indentMark (c : Cursor) : FailsPlainly (indentMark c) := by
  rw [indentMark]
  split
  · dsimp only
    split <;> trivial
  · trivial

theorem failsPlainly_blockHeader (c : Cursor) : FailsPlainly (blockHeader c) := by
  have hend : ∀ (marks : Chomping × Option Nat) (c : Cursor), FailsPlainly
      (if isSpaceOrEnd c.next then .ok (marks, c) else .error .rejected) := by
    intro marks c
    split <;> trivial
  rw [blockHeader]
  dsimp only
  split
  · exact (failsPlainly_indentMark _).bind fun (indent, c) => hend _ _
  · refine (failsPlainly_indentMark c).bind fun (indent, c) => ?_
    dsimp only
    split
    · exact hend _ _
    · exact hend _ _

theorem failsPlainly_readBlock (indent : Int) (c : Cursor) : FailsPlainly (readBlock indent c) :=
  (failsPlainly_blockHeader _).bind fun ((_, _), c) =>
    (failsPlainly_endLine c).bind fun (_, _) => trivial

/-! ### Plain scalars -/

/-- The characters of a word of a plain scalar are no blanks. -/
theorem isBlankOrEnd_of_mem_take (flow : Bool) (cs : List Char) :
    ∀ c ∈ cs.take (plainLength flow cs), isBlankOrEnd c = false := by
  induction cs with
  | nil => simp
  | cons c cs ih =>
    rw [plainLength]
    split
    · simp
    · rename_i hword
      rw [List.take_succ_cons, List.forall_mem_cons]
      refine ⟨?_, ih⟩
      simp only [Bool.or_eq_true, not_or, Bool.not_eq_true] at hword
      exact hword.1.1

/-- A word of a plain scalar does not end with a line feed. -/
theorem getLast?_take_ne (flow : Bool) (cs : List Char) :
    (cs.take (plainLength flow cs)).getLast? ≠ some '\n' := by
  intro hlast
  have hblank := isBlankOrEnd_of_mem_take flow cs '\n' (List.mem_of_getLast? hlast)
  exact absurd hblank (by decide)

/-- Two texts, one after the other, that do not end with a line feed. -/
theorem getLast?_append_ne {xs ys : List Char} (hx : xs.getLast? ≠ some '\n')
    (hy : ys.getLast? ≠ some '\n') : (xs ++ ys).getLast? ≠ some '\n' := by
  -- The second text can be empty, and then the first decides.
  cases ys with
  | nil => rwa [List.append_nil]
  | cons y ys => rwa [List.getLast?_append_of_ne_nil _ (List.cons_ne_nil y ys)]

/-- A plain scalar ends with a word, and thus with no line feed. The induction is on the fuel: what
lies between two words is followed by a word. -/
theorem getLast?_plainWords (flow : Bool) (indent : Int) (fuel : Nat) (between : List Char)
    (broken : Bool) (c : Cursor) :
    (plainWords flow indent between broken fuel c).1.1.getLast? ≠ some '\n' := by
  induction fuel generalizing between broken c with
  | zero => simp [plainWords]
  | succ fuel ih =>
    rw [plainWords]
    split
    · simp
    dsimp only
    split
    · simp
    · rename_i hn
      have hword : (between ++ c.rest.take (plainLength flow c.rest)).getLast? ≠ some '\n' := by
        rw [List.getLast?_append_of_ne_nil]
        · exact getLast?_take_ne flow c.rest
        · intro hnil
          rcases List.take_eq_nil_iff.mp hnil with h | h
          · exact hn h
          · rw [h] at hn
            exact hn rfl
      split
      · exact hword
      · exact getLast?_append_ne hword (ih _ _ _)

theorem getLast?_readPlain (flow : Bool) (indent : Int) (c : Cursor) :
    (readPlain flow indent c).1.1.toList.getLast? ≠ some '\n' := by
  rw [readPlain, String.toList_ofList]
  exact getLast?_plainWords _ _ _ _ _ _

/-! ### Tokens -/

/-- A plain scalar does not end with a line feed. -/
def Token.IsTidy : Token → Prop
  | .scalar text true => text.toList.getLast? ≠ some '\n'
  | _ => True

/-- Whether what has been told apart so far is as it must be. -/
structure TokenStream.IsPlain (s : TokenStream) : Prop where
  tokens : ∀ t ∈ s.tokens, t.IsTidy
  defect : ∀ d, s.defect = some d → d.IsPlain

namespace ScanState

/-- Whether the plain scalars that are held back do not end with line feeds. -/
def IsTidy (s : ScanState) : Prop := ∀ t ∈ s.held, t.IsTidy

/-- A step that keeps this, if it does not fail. -/
abbrev StepsPlainly (x : Except Defect ScanState) : Prop := Satisfies Defect.IsPlain IsTidy x

variable {s : ScanState}

theorem IsTidy.push (hs : s.IsTidy) {t : Token} (ht : t.IsTidy) : (s.push t).IsTidy := by
  intro u hu
  rcases List.mem_append.mp hu with hu | hu
  · exact hs u hu
  · rw [List.mem_singleton.mp hu]
    exact ht

theorem IsTidy.insertAt (hs : s.IsTidy) (number : Nat) {t : Token} (ht : t.IsTidy) :
    (s.insertAt number t).IsTidy := by
  intro u hu
  rcases List.eq_or_mem_of_mem_insertIdx hu with rfl | hu
  · exact ht
  · exact hs u hu

theorem IsTidy.closeBlocks (hs : s.IsTidy) (column : Int) : (s.closeBlocks column).IsTidy := by
  -- Each block that is closed adds a mark, which is tidy.
  have hgo : ∀ fuel s, IsTidy s → IsTidy (closeBlocks.go column fuel s) := by
    intro fuel
    induction fuel with
    | zero => exact fun s hs => hs
    | succ fuel ih =>
      intro s hs
      rw [closeBlocks.go]
      split
      · exact ih _ (hs.push trivial)
      · exact hs
  exact hgo _ s hs

theorem IsTidy.openBlockHere (hs : s.IsTidy) {t : Token} (ht : t.IsTidy) :
    (s.openBlockHere t).IsTidy := by
  rw [ScanState.openBlockHere]
  split
  · exact IsTidy.push (s := s.openBlock _) hs ht
  · exact hs

theorem IsTidy.toNextToken (hs : s.IsTidy) (fuel : Nat) : (s.toNextToken fuel).IsTidy := by
  induction fuel generalizing s with
  | zero => exact hs
  | succ fuel ih =>
    rw [ScanState.toNextToken]
    split
    · exact ih hs
    · exact hs

/-! ### Steps -/

theorem IsTidy.dropStale (hs : s.IsTidy) : StepsPlainly s.dropStale := by
  rw [ScanState.dropStale]
  split
  · trivial
  · exact hs

theorem IsTidy.dropCandidate (hs : s.IsTidy) : StepsPlainly s.dropCandidate := by
  rw [ScanState.dropCandidate]
  split
  · trivial
  · exact hs

theorem IsTidy.saveCandidate (hs : s.IsTidy) : StepsPlainly s.saveCandidate := by
  rw [ScanState.saveCandidate]
  split
  · exact hs
  · exact hs.dropCandidate.bind fun _ hs => hs

theorem IsTidy.fetchEnd (hs : s.IsTidy) : StepsPlainly s.fetchEnd :=
  (hs.closeBlocks _).dropCandidate.bind fun _ hs => hs.push trivial

theorem IsTidy.fetchDirective (hs : s.IsTidy) : StepsPlainly s.fetchDirective :=
  (hs.closeBlocks _).dropCandidate.bind fun s hs =>
    Satisfies.bind (failsPlainly_readDirective s.cursor) fun p _ =>
      hs.push (t := .directive p.1) trivial

theorem IsTidy.fetchSeparator (hs : s.IsTidy) {t : Token} (ht : t.IsTidy) :
    StepsPlainly (s.fetchSeparator t) :=
  (hs.closeBlocks _).dropCandidate.bind fun _ hs => hs.push ht

theorem IsTidy.fetchFlowStart (hs : s.IsTidy) {t : Token} (ht : t.IsTidy) :
    StepsPlainly (s.fetchFlowStart t) :=
  hs.saveCandidate.bind fun _ hs => hs.push ht

theorem IsTidy.fetchFlowEnd (hs : s.IsTidy) {t : Token} (ht : t.IsTidy) :
    StepsPlainly (s.fetchFlowEnd t) :=
  hs.dropCandidate.bind fun _ hs => hs.push ht

theorem IsTidy.fetchFlowEntry (hs : s.IsTidy) : StepsPlainly s.fetchFlowEntry :=
  hs.dropCandidate.bind fun _ hs => hs.push (t := .flowEntry) trivial

/-- Outside brackets a mark opens a block collection, if it is indented more. -/
theorem IsTidy.openBlockIf (hs : s.IsTidy) {t : Token} (ht : t.IsTidy) :
    (if s.flowLevel = 0 then s.openBlockHere t else s).IsTidy := by
  split
  · exact hs.openBlockHere ht
  · exact hs

theorem IsTidy.fetchBlockEntry (hs : s.IsTidy) : StepsPlainly s.fetchBlockEntry := by
  rw [ScanState.fetchBlockEntry]
  split
  · trivial
  · exact (hs.openBlockIf (t := .blockSequenceStart) trivial).dropCandidate.bind fun _ hs =>
      hs.push (t := .blockEntry) trivial

theorem IsTidy.fetchKey (hs : s.IsTidy) : StepsPlainly s.fetchKey := by
  rw [ScanState.fetchKey]
  split
  · trivial
  · exact (hs.openBlockIf (t := .blockMappingStart) trivial).dropCandidate.bind fun _ hs =>
      hs.push (t := .key) trivial

theorem IsTidy.valueOfCandidate (hs : s.IsTidy) (k : KeyCandidate) :
    (s.valueOfCandidate k).IsTidy := by
  have hkey : (s.insertAt k.number .key).IsTidy := hs.insertAt _ trivial
  rw [ScanState.valueOfCandidate]
  dsimp only
  split
  · refine IsTidy.push (t := .value) ?_ trivial
    exact IsTidy.insertAt (t := .blockMappingStart) hkey _ trivial
  · exact IsTidy.push (t := .value) hkey trivial

theorem IsTidy.valueAlone (hs : s.IsTidy) : StepsPlainly s.valueAlone := by
  rw [ScanState.valueAlone]
  split
  · trivial
  · refine Satisfies.bind (P := IsTidy) (IsTidy.dropCandidate ?_) fun _ hs =>
      hs.push (t := .value) trivial
    exact hs.openBlockIf (t := .blockMappingStart) trivial

theorem IsTidy.fetchValue (hs : s.IsTidy) : StepsPlainly s.fetchValue := by
  rw [ScanState.fetchValue]
  split
  · exact hs.valueOfCandidate _
  · exact hs.valueAlone

theorem IsTidy.fetchCandidate (hs : s.IsTidy) {α : Type} {reader : Reader α}
    (hreader : ∀ c, FailsPlainly (reader c)) {token : α → Token} (htoken : ∀ a, (token a).IsTidy) :
    StepsPlainly (s.fetchCandidate reader token) :=
  hs.saveCandidate.bind fun s hs =>
    Satisfies.bind (hreader s.cursor) fun p _ => hs.push (htoken p.1)

theorem IsTidy.fetchBlock (hs : s.IsTidy) : StepsPlainly s.fetchBlock :=
  hs.dropCandidate.bind fun s hs =>
    Satisfies.bind (failsPlainly_readBlock s.indent s.cursor) fun p _ =>
      hs.push (t := .scalar p.1 false) trivial

theorem IsTidy.fetchPlain (hs : s.IsTidy) : StepsPlainly s.fetchPlain :=
  hs.saveCandidate.bind fun s hs => hs.push (getLast?_readPlain _ s.indent s.cursor)

/-- The token at a position is of one kind or is no token at all. -/
theorem IsTidy.fetchHere (hs : s.IsTidy) : StepsPlainly s.fetchHere := by
  rw [ScanState.fetchHere]
  -- One case for each character that a token can start with, in the order of the definition.
  split
  · exact hs.fetchEnd
  · split
    · exact hs.fetchDirective
    · trivial
  · split
    · exact hs.fetchSeparator trivial
    split
    · exact hs.fetchBlockEntry
    · exact hs.fetchPlain
  · split
    · exact hs.fetchSeparator trivial
    · exact hs.fetchPlain
  · exact hs.fetchFlowStart trivial
  · exact hs.fetchFlowStart trivial
  · exact hs.fetchFlowEnd trivial
  · exact hs.fetchFlowEnd trivial
  · exact hs.fetchFlowEntry
  · split
    · exact hs.fetchKey
    · exact hs.fetchPlain
  · split
    · exact hs.fetchValue
    · exact hs.fetchPlain
  · exact hs.fetchCandidate failsPlainly_readName fun _ => trivial
  · exact hs.fetchCandidate failsPlainly_readName fun _ => trivial
  · exact hs.fetchCandidate failsPlainly_readTag fun _ => trivial
  · split
    · exact hs.fetchBlock
    · trivial
  · split
    · exact hs.fetchBlock
    · trivial
  · exact hs.fetchCandidate failsPlainly_readQuoted fun _ => trivial
  · exact hs.fetchCandidate failsPlainly_readQuoted fun _ => trivial
  · split
    · exact hs.fetchPlain
    · trivial

theorem IsTidy.fetch (hs : s.IsTidy) : StepsPlainly s.fetch :=
  (hs.toNextToken _).dropStale.bind fun s hs => (hs.closeBlocks s.cursor.column).fetchHere

/-- One step: a token is read, or one is passed on. -/
theorem run_succ (fuel : Nat) (s : ScanState) :
    run (fuel + 1) s =
      if s.finished then ⟨s.held, none⟩
      else
        match s.held with
        | [] =>
          match s.fetch with
          | .ok s => run fuel s
          | .error defect => ⟨[], some defect⟩
        | token :: rest =>
          match s.dropStale with
          | .error defect => ⟨[], some defect⟩
          | .ok s =>
            if s.isUndecided then
              match s.fetch with
              | .ok s => run fuel s
              | .error defect => ⟨[], some defect⟩
            else
              let stream := run fuel { s with held := rest, passed := s.passed + 1 }
              { stream with tokens := token :: stream.tokens } := by
  cases s
  rfl

/-- Nothing has been told apart where the tokens stop at once. -/
theorem isPlain_stop {d : Defect} (hd : d.IsPlain) : TokenStream.IsPlain ⟨[], some d⟩ where
  tokens t ht := (List.not_mem_nil ht).elim
  defect e he := by
    cases he
    exact hd

/-- Reading a token, and then the others. -/
theorem IsTidy.isPlain_fetch (hs : s.IsTidy) {fuel : Nat}
    (hrun : ∀ s : ScanState, s.IsTidy → (run fuel s).IsPlain) :
    TokenStream.IsPlain (match s.fetch with
      | .ok s => run fuel s
      | .error defect => ⟨[], some defect⟩) := by
  have hfetch := hs.fetch
  split
  · rename_i s' heq
    rw [heq] at hfetch
    exact hrun s' hfetch
  · rename_i d heq
    exact isPlain_stop (hfetch.of_eq_error heq)

/-- The tokens from a state on. Every step reads a token or passes one on, and the induction is on
the number of steps. -/
theorem IsTidy.isPlain_run (hs : s.IsTidy) (fuel : Nat) : (run fuel s).IsPlain := by
  induction fuel generalizing s with
  | zero =>
    refine ⟨fun t ht => (List.not_mem_nil ht).elim, fun d hd => ?_⟩
    cases hd
  | succ fuel ih =>
    have hrun : ∀ s : ScanState, s.IsTidy → (run fuel s).IsPlain := fun s hs => ih hs
    rw [run_succ]
    split
    -- At the end of the text all tokens that are held back are given.
    · refine ⟨hs, fun d hd => ?_⟩
      cases hd
    split
    · exact hs.isPlain_fetch hrun
    rename_i token rest hheld
    have hdrop := hs.dropStale
    split
    · rename_i d heq
      exact isPlain_stop (hdrop.of_eq_error heq)
    rename_i s' heq
    rw [heq] at hdrop
    split
    -- The first token may still turn out to be a key, so another one is read.
    · exact hdrop.isPlain_fetch hrun
    · -- The first token is passed on.
      have htoken : token.IsTidy ∧ ∀ t ∈ rest, t.IsTidy := by
        rw [← List.forall_mem_cons, ← hheld]
        exact hs
      have hstream := hrun { s' with held := rest, passed := s'.passed + 1 } htoken.2
      exact ⟨List.forall_mem_cons.mpr ⟨htoken.1, hstream.tokens⟩, hstream.defect⟩

end ScanState

/-- What stops the tokens of a text is a defect that does not take a tag, and before that no plain
scalar ends with a line feed. -/
theorem isPlain_scan (cs : List Char) : (Token.scan cs).IsPlain :=
  ScanState.IsTidy.isPlain_run (fun _ ht => (List.not_mem_nil ht).elim) _

end PipelineManifest.Yaml
