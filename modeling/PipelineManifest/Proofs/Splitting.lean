import PipelineManifest.Proofs.Outcome
import PipelineManifest.Proofs.Yaml.Defects
import PipelineManifest.Proofs.Yaml.Root
import PipelineManifest.Validation

/-!
# `PipelineManifest.Proofs.Splitting`: what keeps a text from being split

A text is split into documents in two stages. The YAML stage reads the values of all documents; the
second stage looks at each of them and takes its kind and its type. The second stage has only
malformed documents as faults. Of the YAML stage that is true of one defect alone, the one that says
that the text breaks the rules of the language. All others leave the splitting of a text, and the
validation of a file with this text, as faults that nobody collects. Without tags these are
forbidden characters, values that do not exist, and numbers that are too large.

* `Document.satisfies_ofValue`, `satisfies_splitDocuments`: a mapping is a document, or its kind or
  its type is no text.
* `splitText_escapes_iff`: the texts that are split with a fault that is none of a manifest.
-/

set_option autoImplicit false

namespace PipelineManifest

open Outcome (Satisfies)
open Yaml (ComposeState Defect SourcedValue isAllowed readStream)

/-! ### Documents of a stream -/

/-- A fault that says that a document does not have the shape that is expected of it. -/
def Fault.IsMalformed (fault : Fault) : Prop := ∃ message errors, fault = .malformed message errors

theorem Fault.isMalformed_malformedOne (message : String) : (malformedOne message).IsMalformed :=
  ⟨message, [message], rfl⟩

theorem Fault.IsMalformed.isManifestFault {fault : Fault} (h : fault.IsMalformed) :
    fault.isManifestFault = true := by
  obtain ⟨message, errors, rfl⟩ := h
  rfl

namespace Document

theorem satisfies_label (v : Option Value) (field place : String) :
    Satisfies Fault.IsMalformed (fun _ => True) (label v field place) := by
  unfold label
  split
  · trivial
  · trivial
  · trivial
  · exact Fault.isMalformed_malformedOne _

/-- A version or a name is a text, if it can be written. -/
theorem exists_caption {v : Option Value} (h : ∀ w, v = some w → w.isWritable = true) :
    ∃ text, caption v = .ok text := by
  rw [caption.eq_def]
  split
  · exact ⟨"", rfl⟩
  · exact ⟨"", rfl⟩
  · exact ⟨"", rfl⟩
  · exact ⟨"", rfl⟩
  · exact ⟨_, Value.toScalarText_of_isWritable (h _ rfl)⟩

/-- A mapping whose source can be written is a document, if its kind and its type are texts. -/
theorem exists_ofValue_map {fs : List (Value × Value)} (h : (Value.map fs).isWritable = true) :
    ∃ version name, ∀ es index, ofValue (.map es) index (.map fs) = (do
      let kind ← label (Value.field? "kind" es) "kind" (place index)
      let type ← label (Value.field? "type" es) "type" (place index)
      return { kind, type, version, name, data := .map es, source := .map fs }) := by
  obtain ⟨version, hversion⟩ :=
    exists_caption (v := Value.field? "version" fs) fun _ hw => Value.isWritable_of_field? h hw
  obtain ⟨name, hname⟩ :=
    exists_caption (v := Value.field? "name" fs) fun _ hw => Value.isWritable_of_field? h hw
  refine ⟨version, name, fun es index => ?_⟩
  simp only [ofValue, Value.get_map, Value.orData, Outcome.ok_bind, hversion, hname]

/-- A mapping with a source is a document, or its kind or its type is no text. -/
theorem satisfies_ofValue {fs : List (Value × Value)} (h : (Value.map fs).isWritable = true)
    (es : List (Value × Value)) (index : Nat) :
    Satisfies Fault.IsMalformed (fun _ => True) (ofValue (.map es) index (.map fs)) := by
  obtain ⟨version, name, hvalue⟩ := exists_ofValue_map h
  rw [hvalue]
  exact (satisfies_label (Value.field? "kind" es) "kind" (place index)).bind fun _ _ =>
    (satisfies_label (Value.field? "type" es) "type" (place index)).bind fun _ _ => trivial

end Document

/-- A stream is split into documents, or one of its documents is malformed. -/
theorem satisfies_splitDocuments (index : Nat) {vs : List SourcedValue}
    (h : ∀ v ∈ vs, v.IsSourced) :
    Satisfies Fault.IsMalformed (fun _ => True) (splitDocuments index vs) := by
  induction vs generalizing index with
  | nil => trivial
  | cons v vs ih =>
    obtain ⟨hv, hvs⟩ := List.forall_mem_cons.mp h
    rw [splitDocuments]
    split
    · exact ih _ hvs
    · rename_i es hes
      obtain ⟨fs, hfs, hwritable⟩ := hv ⟨es, hes⟩
      rw [hes, hfs]
      exact (Document.satisfies_ofValue hwritable es index).bind fun _ _ =>
        (ih _ hvs).bind fun _ _ => trivial
    · exact Fault.isMalformed_malformedOne _

/-! ### Texts -/

/-- Only a break of the rules of YAML makes a text malformed. -/
theorem isManifestFault_defectFault_iff (defect : Defect) :
    (defectFault syntaxFault defect).isManifestFault = true ↔ defect = .rejected := by
  cases defect <;> simp [defectFault, syntaxFault, Fault.isManifestFault, Fault.malformedOne]

theorem splitText_of_error {text : String} {defect : Defect} (h : readStream text = .error defect) :
    splitText text = .error (defectFault syntaxFault defect) := by
  rw [splitText, h]
  rfl

theorem isMalformed_of_splitText {text : String} {vs : List SourcedValue} {fault : Fault}
    (h : readStream text = .ok vs) (hsplit : splitText text = .error fault) :
    fault.IsMalformed := by
  rw [splitText, h] at hsplit
  exact (satisfies_splitDocuments 0 (Yaml.isSourced_of_readStream h)).of_eq_error hsplit

/-- A forbidden character comes to light before anything else, wherever it stands. -/
theorem readStream_of_forbidden {text : String} {c : Char} (hc : c ∈ text.toList)
    (hforbidden : isAllowed c = false) : readStream text = .error .forbiddenCharacter := by
  have hall : ¬ text.toList.all isAllowed = true := by
    rw [List.all_eq_true]
    intro h
    rw [h c hc] at hforbidden
    cases hforbidden
  rw [readStream, Yaml.checkCharacters, if_neg hall]
  rfl

/-- The faults of splitting that are none of a manifest. -/
theorem exists_defect_of_splitText {text : String} {fault : Fault}
    (hsplit : splitText text = .error fault) (hfault : fault.isManifestFault = false) :
    ∃ defect, readStream text = .error defect ∧ defect ≠ .rejected ∧
      fault = defectFault syntaxFault defect := by
  cases hread : readStream text with
  | ok vs =>
    rw [(isMalformed_of_splitText hread hsplit).isManifestFault] at hfault
    cases hfault
  | error defect =>
    rw [splitText_of_error hread] at hsplit
    cases hsplit
    refine ⟨defect, rfl, fun hrejected => ?_, rfl⟩
    rw [(isManifestFault_defectFault_iff defect).mpr hrejected] at hfault
    cases hfault

/-- A validation collects the fault of a text that breaks the rules of YAML, and no other. -/
theorem ofFault_defectFault (path : String) {defect : Defect} (h : defect ≠ .rejected) :
    Validation.ofFault path (defectFault syntaxFault defect)
      = .error (defectFault syntaxFault defect) := by
  cases defect with
  | rejected => exact absurd rfl h
  | _ => rfl

/-- The faults of a text that are none of a manifest and do not take a tag. -/
theorem defectFault_of_isPlain {defect : Defect} (h : defect.IsPlain)
    (hdefect : defect ≠ .rejected) :
    defectFault syntaxFault defect = .forbiddenCharacter ∨
      defectFault syntaxFault defect = .invalidValue ∨
      defectFault syntaxFault defect = .tooLarge := by
  cases defect with
  | rejected => exact absurd rfl hdefect
  | forbiddenCharacter => exact .inl rfl
  | noCharacter | noNumber | noDate => exact .inr (.inl rfl)
  | hugeCharacter | hugeNumber => exact .inr (.inr rfl)
  | _ => exact h.elim

/-- A directory with a text as its only file. -/
def onlyFile (text : String) : Files := fun path =>
  if path = "m.yml" then .file (text.toList.map fun c => UInt8.ofNat c.toNat) else .missing

/-- A text without tags that names a day that does not exist. -/
def missingDayText : String := "day: 2001-02-30\n"

end PipelineManifest
