import PipelineManifest.Proofs.Outcome
import PipelineManifest.Validation

/-!
# `PipelineManifest.Proofs.Rejection`: reading and validation reject the same documents

Reading a manifest (`decodeAll`) stops at the first document that cannot be resolved. Validation
(`Validation.validateAll`) goes on to the end and collects. Both are compared with one account of
the documents that does not run through them at all: `Registry.rejections` lists every document
that cannot be resolved, with its position and its fault, and `Registry.resolved` lists the
resources of the others.

* `result_validateAll`: validation reports exactly the rejections and keeps exactly the resolved
  resources.
* `result_decodeAll`: reading gives the resolved resources, or the fault of the first rejection;
  `result_decodeAll_eq_ok_iff` and `result_decodeAll_eq_error_iff` say so without the account.
* `result_parse_eq_ok_iff`, `result_parse_eq_error_iff`: the same for the documents of a text.
* `ofFile_agrees_parseFile`: the validation of a file against the manifest that the file holds.

The decoders of a registry may fail in any way. A fault that is none of a manifest ends a
validation, so the theorems ask that the decoders have only faults of manifests on the documents
at hand (`Registry.DecodesTamely`).
-/

set_option autoImplicit false

namespace PipelineManifest

/-- A document that cannot be resolved, with its position and the reason. -/
structure Rejection where
  position : Nat
  document : Document
  fault : Fault

/-- What validation reports about a rejected document. -/
def Rejection.report (x : Rejection) : String :=
  Validation.label x.position x.document ++ ": " ++ x.fault.message?.getD ""

/-- Every fault of a manifest has a text. -/
theorem Fault.exists_message_of_isManifestFault {fault : Fault}
    (h : fault.isManifestFault = true) : ∃ message, fault.message? = some message := by
  cases fault <;> first | exact ⟨_, rfl⟩ | simp [isManifestFault] at h

section Documents

variable {ρ : Type} (r : Registry ρ)

namespace Registry

/-- The documents that cannot be resolved, in order; the first document is at `position`. -/
def rejections (position : Nat) (documents : List Document) : List Rejection :=
  (documents.zipIdx position).filterMap fun (d, i) =>
    match r.resolve d with
    | .error fault => some ⟨i, d, fault⟩
    | .ok _ => none

/-- The resources of the documents that can be resolved, in order. -/
def resolved (documents : List Document) : List ρ :=
  documents.filterMap fun d =>
    match r.resolve d with
    | .ok resource? => resource?
    | .error _ => none

/-- Each decoder gives a resource or has a fault of a manifest on those of the documents that
its family owns. -/
def DecodesTamely (documents : List Document) : Prop :=
  ∀ f ∈ r.families, ∀ d ∈ documents, f.owns d = true → ∀ fault,
    f.decode d = .error fault → fault.isManifestFault = true

variable {r}

theorem rejections_cons_of_ok {d : Document} {resource? : Option ρ}
    (h : r.resolve d = .ok resource?) (position : Nat) (ds : List Document) :
    r.rejections position (d :: ds) = r.rejections (position + 1) ds := by
  simp [rejections, h]

theorem rejections_cons_of_error {d : Document} {fault : Fault}
    (h : r.resolve d = .error fault) (position : Nat) (ds : List Document) :
    r.rejections position (d :: ds)
      = ⟨position, d, fault⟩ :: r.rejections (position + 1) ds := by
  simp [rejections, h]

theorem resolved_cons_of_ok {d : Document} {resource? : Option ρ}
    (h : r.resolve d = .ok resource?) (ds : List Document) :
    r.resolved (d :: ds) = resource?.toList ++ r.resolved ds := by
  cases resource? <;> simp [resolved, h]

theorem resolved_cons_of_error {d : Document} {fault : Fault}
    (h : r.resolve d = .error fault) (ds : List Document) :
    r.resolved (d :: ds) = r.resolved ds := by
  simp [resolved, h]

theorem resolved_append (ds es : List Document) :
    r.resolved (ds ++ es) = r.resolved ds ++ r.resolved es := List.filterMap_append

/-- No document is rejected exactly when every document can be resolved. -/
theorem rejections_eq_nil_iff (position : Nat) (ds : List Document) :
    r.rejections position ds = [] ↔ ∀ d ∈ ds, ∃ resource?, r.resolve d = .ok resource? := by
  induction ds generalizing position with
  | nil => simp [rejections]
  | cons d ds ih =>
    cases h : r.resolve d with
    | error fault => simp [rejections_cons_of_error h, h]
    | ok resource? => simp [rejections_cons_of_ok h, ih, h]

/-- Where the decoders are tame, so is resolving: a missing kind is a fault of a manifest, and a
document that no family owns is no fault. -/
theorem isManifestFault_of_resolve {ds : List Document} (hr : r.DecodesTamely ds)
    {d : Document} (hd : d ∈ ds) {fault : Fault} (h : r.resolve d = .error fault) :
    fault.isManifestFault = true := by
  unfold resolve at h
  split at h
  · cases h
    rfl
  · unfold parse at h
    cases hf : r.lookup? d with
    | none =>
      rw [hf] at h
      cases h
    | some f =>
      have howns : f.owns d = true := by simpa using List.find?_some hf
      rw [hf] at h
      simp only [Family.parse, howns, if_true] at h
      cases hdec : f.decode d with
      | error fault' =>
        rw [hdec] at h
        cases h
        exact hr f (List.mem_of_find?_eq_some hf) d hd howns _ hdec
      | ok a =>
        rw [hdec] at h
        cases h

theorem DecodesTamely.tail {d : Document} {ds : List Document}
    (hr : r.DecodesTamely (d :: ds)) : r.DecodesTamely ds :=
  fun f hf d' hd' => hr f hf d' (List.mem_cons_of_mem _ hd')

/-- A rejection among documents with tame decoders has a fault of a manifest. -/
theorem isManifestFault_of_mem_rejections {ds : List Document} (hr : r.DecodesTamely ds)
    (position : Nat) {x : Rejection} (hx : x ∈ r.rejections position ds) :
    x.fault.isManifestFault = true := by
  unfold rejections at hx
  obtain ⟨⟨d, i⟩, hd, hx⟩ := List.mem_filterMap.mp hx
  have hmem : d ∈ ds := List.fst_mem_of_mem_zipIdx hd
  cases h : r.resolve d with
  | ok resource? => simp [h] at hx
  | error fault =>
    simp only [h, Option.some.injEq] at hx
    subst hx
    exact isManifestFault_of_resolve hr hmem h

end Registry

variable {r}

open Registry

/-- Validation reports every rejection, in order, and keeps every resolved resource. -/
theorem result_validateAll {ds : List Document} (hr : r.DecodesTamely ds) (position : Nat) :
    (Validation.validateAll r position ds).result
      = .ok ((r.rejections position ds).map Rejection.report, r.resolved ds) := by
  induction ds generalizing position with
  | nil => rfl
  | cons d ds ih =>
    have hrest := ih hr.tail (position + 1)
    cases h : r.resolve d with
    | ok resource? =>
      simp only [Validation.validateAll, resolveLogged, h, hrest]
      rw [rejections_cons_of_ok h, resolved_cons_of_ok h]
      rfl
    | error fault =>
      have hfault := isManifestFault_of_resolve hr List.mem_cons_self h
      simp only [Validation.validateAll, resolveLogged, h, hrest, hfault, if_true]
      rw [rejections_cons_of_error h, resolved_cons_of_error h]
      rfl

/-- Reading gives the resolved resources if nothing is rejected, and otherwise the fault of the
first rejection. The position from which documents are counted does not matter. -/
theorem result_decodeAll (position : Nat) (ds : List Document) :
    (decodeAll r ds).result
      = match r.rejections position ds with
        | [] => .ok (r.resolved ds)
        | x :: _ => .error x.fault := by
  induction ds generalizing position with
  | nil => rfl
  | cons d ds ih =>
    cases h : r.resolve d with
    | ok resource? =>
      simp only [decodeAll, resolveLogged, h]
      rw [ih (position + 1), rejections_cons_of_ok h, resolved_cons_of_ok h]
      cases r.rejections (position + 1) ds <;> rfl
    | error fault =>
      simp only [decodeAll, resolveLogged, h]
      rw [rejections_cons_of_error h]

/-- Reading succeeds when every document can be resolved. -/
theorem result_decodeAll_eq_ok_iff {ds : List Document} {xs : List ρ} :
    (decodeAll r ds).result = .ok xs ↔
      (∀ d ∈ ds, ∃ resource?, r.resolve d = .ok resource?) ∧ xs = r.resolved ds := by
  rw [result_decodeAll 0, ← rejections_eq_nil_iff 0]
  cases r.rejections 0 ds <;> simp [eq_comm]

/-- Reading fails with the fault of the first document that cannot be resolved. -/
theorem result_decodeAll_eq_error_iff {ds : List Document} {fault : Fault} :
    (decodeAll r ds).result = .error fault ↔
      ∃ before d after, ds = before ++ d :: after ∧
        (∀ e ∈ before, ∃ resource?, r.resolve e = .ok resource?) ∧ r.resolve d = .error fault := by
  induction ds with
  | nil => simp [decodeAll]
  | cons d ds ih =>
    cases h : r.resolve d with
    | error found =>
      -- The document is the first that fails, so none stands before it.
      simp only [decodeAll, resolveLogged, h]
      constructor
      · rintro ⟨⟩
        exact ⟨[], d, ds, rfl, by simp, h⟩
      · rintro ⟨before, e, after, heq, hbefore, he⟩
        cases before with
        | nil =>
          obtain ⟨rfl, rfl⟩ := List.cons.inj heq
          exact congrArg _ (Except.error.inj (h.symm.trans he))
        | cons b before =>
          obtain ⟨rfl, rfl⟩ := List.cons.inj heq
          obtain ⟨_, hok⟩ := hbefore d List.mem_cons_self
          rw [h] at hok
          cases hok
    | ok resource? =>
      have hrest : (decodeAll r (d :: ds)).result = .error fault ↔
          (decodeAll r ds).result = .error fault := by
        simp only [decodeAll, resolveLogged, h]
        cases (decodeAll r ds).result <;> simp [Except.map]
      rw [hrest, ih]
      constructor
      · rintro ⟨before, e, after, rfl, hbefore, he⟩
        exact ⟨d :: before, e, after, rfl, List.forall_mem_cons.mpr ⟨⟨_, h⟩, hbefore⟩, he⟩
      · rintro ⟨before, e, after, heq, hbefore, he⟩
        cases before with
        | nil =>
          obtain ⟨rfl, rfl⟩ := List.cons.inj heq
          rw [h] at he
          cases he
        | cons b before =>
          obtain ⟨rfl, rfl⟩ := List.cons.inj heq
          exact ⟨before, e, after, rfl, (List.forall_mem_cons.mp hbefore).2, he⟩

end Documents

/-! ### Texts -/

section Texts

variable {r : Registry Resource} {text : String}

/-- A text is split before its documents are decoded. -/
theorem result_parse :
    (Manifest.parse r text).result = (do
      let ds ← splitText text
      let resources ← (decodeAll r ds).result
      return { resources }) := by
  rw [Manifest.parse]
  cases splitText text with
  | error fault => rfl
  | ok ds =>
    show (decodeAll r ds).result.map _ = (decodeAll r ds).result >>= _
    cases (decodeAll r ds).result <;> rfl

/-- A manifest holds what the documents are resolved to, if all of them are. -/
theorem result_parse_eq_ok_iff {m : Manifest} :
    (Manifest.parse r text).result = .ok m ↔
      ∃ ds, splitText text = .ok ds ∧ (∀ d ∈ ds, ∃ resource?, r.resolve d = .ok resource?) ∧
        m = { resources := r.resolved ds } := by
  simp only [result_parse, Outcome.bind_eq_ok_iff, result_decodeAll_eq_ok_iff, Outcome.pure_eq_ok,
    Except.ok.injEq]
  constructor
  · rintro ⟨ds, hds, _, ⟨hall, rfl⟩, rfl⟩
    exact ⟨ds, hds, hall, rfl⟩
  · rintro ⟨ds, hds, hall, rfl⟩
    exact ⟨ds, hds, _, ⟨hall, rfl⟩, rfl⟩

/-- Otherwise the text has the fault of being split, or that of the first document that cannot be
resolved. -/
theorem result_parse_eq_error_iff {fault : Fault} :
    (Manifest.parse r text).result = .error fault ↔
      splitText text = .error fault ∨
        ∃ before d after, splitText text = .ok (before ++ d :: after) ∧
          (∀ e ∈ before, ∃ resource?, r.resolve e = .ok resource?) ∧
          r.resolve d = .error fault := by
  simp only [result_parse, Outcome.bind_eq_error_iff, result_decodeAll_eq_error_iff,
    Outcome.pure_eq_ok, reduceCtorEq, and_false, exists_false, or_false]
  refine or_congr_right ⟨?_, ?_⟩
  · rintro ⟨ds, hds, before, d, after, rfl, hbefore, hd⟩
    exact ⟨before, d, after, hds, hbefore, hd⟩
  · rintro ⟨before, d, after, hds, hbefore, hd⟩
    exact ⟨_, hds, before, d, after, rfl, hbefore, hd⟩

end Texts

/-! ### Files -/

/-- A validation and a reading of the same documents agree. -/
structure Agree (r : Registry Resource) (documents : List Document) (v : Validation)
    (parsed : Outcome Manifest) : Prop where
  /-- There is one message for each rejected document, in order: its label and the text of its
  own fault. -/
  errors : List.Forall₂
    (fun (x : Rejection) error => ∃ message, x.fault.message? = some message ∧
      error = Validation.label x.position x.document ++ ": " ++ message)
    (r.rejections 1 documents) v.errors
  /-- What is left is exactly what the other documents hold. -/
  resources : v.manifest.map (·.resources) = some (r.resolved documents)
  /-- A validation without errors is one without rejected documents. -/
  isValid_iff : v.isValid = true ↔ ∀ d ∈ documents, ∃ resource?, r.resolve d = .ok resource?
  /-- Reading succeeds exactly when nothing is wrong. -/
  parsed_iff : v.isValid = true ↔ ∃ m, parsed = .ok m
  /-- Then both hold the same resources in the same order. -/
  same : ∀ m, parsed = .ok m → v.manifest.map (·.resources) = some m.resources
  /-- Otherwise reading fails with the fault of the document that is reported first. -/
  first : ∀ fault, parsed = .error fault → ∃ x rest message,
    r.rejections 1 documents = x :: rest ∧ x.fault = fault ∧ fault.message? = some message ∧
      v.errors.head? = some (Validation.label x.position x.document ++ ": " ++ message)

/-- The messages of a validation, one by one. -/
theorem forall₂_report {xs : List Rejection}
    (h : ∀ x ∈ xs, x.fault.isManifestFault = true) :
    List.Forall₂
      (fun (x : Rejection) error => ∃ message, x.fault.message? = some message ∧
        error = Validation.label x.position x.document ++ ": " ++ message)
      xs (xs.map Rejection.report) := by
  induction xs with
  | nil => exact .nil
  | cons x xs ih =>
    obtain ⟨message, hm⟩ := Fault.exists_message_of_isManifestFault (h x List.mem_cons_self)
    refine .cons ⟨message, hm, ?_⟩ (ih fun y hy => h y (List.mem_cons_of_mem _ hy))
    simp [Rejection.report, hm]

/-- The validation of documents agrees with every outcome that keeps the resources, or the first
fault, of reading them. -/
theorem agree_of_result {r : Registry Resource} {documents : List Document}
    (hr : r.DecodesTamely documents) (path : Option String) :
    Agree r documents
      ⟨(r.rejections 1 documents).map Rejection.report, some ⟨r.resolved documents, none⟩⟩
      ((decodeAll r documents).result.map fun resources => ⟨resources, path⟩) := by
  have hfaults : ∀ x ∈ r.rejections 1 documents, x.fault.isManifestFault = true :=
    fun x hx => Registry.isManifestFault_of_mem_rejections hr 1 hx
  have hread := result_decodeAll (r := r) 1 documents
  have hnil := Registry.rejections_eq_nil_iff (r := r) 1 documents
  cases hbad : r.rejections 1 documents with
  | nil =>
    -- Nothing is rejected, so reading succeeds.
    rw [hbad] at hread hfaults
    refine ⟨?_, rfl, ?_, ?_, ?_, ?_⟩
    · rw [hbad]
      exact .nil
    · simpa [Validation.isValid] using hnil.mp hbad
    · simp [Validation.isValid, hread, Except.map]
    · intro m hm
      rw [hread] at hm
      cases hm
      rfl
    · intro fault hm
      rw [hread] at hm
      cases hm
  | cons x rest =>
    -- Reading stops at the first rejection, whose message is the first error.
    rw [hbad] at hread hfaults
    obtain ⟨message, hmessage⟩ :=
      Fault.exists_message_of_isManifestFault (hfaults x List.mem_cons_self)
    refine ⟨?_, rfl, ?_, ?_, ?_, ?_⟩
    · rw [hbad]
      exact forall₂_report hfaults
    · rw [← hnil, hbad]
      simp [Validation.isValid]
    · simp [Validation.isValid, hread, Except.map]
    · intro m hm
      rw [hread] at hm
      cases hm
    · intro fault hm
      rw [hread] at hm
      cases hm
      exact ⟨x, rest, message, hbad, rfl, hmessage, by simp [Rejection.report, hmessage]⟩

/-- The validation of a file agrees with reading its text and with reading the file itself.
Where the file cannot be read or split into documents, reading fails with just that fault. A
missing file and a malformed one then leave a validation with one message and no manifest. -/
theorem ofFile_agrees_parseFile (r : Registry Resource) (files : Files) (path : String)
    (hr : ∀ documents, (files path).readManifest path >>= splitText = .ok documents →
      r.DecodesTamely documents) :
    (∀ text documents, (files path).readManifest path = .ok text →
      splitText text = .ok documents →
      ∃ v, (Validation.ofFile r files path).result = .ok v ∧
        Agree r documents v (Manifest.parse r text).result ∧
        Agree r documents v (Manifest.parseFile r files path).result) ∧
    (∀ fault, (files path).readManifest path >>= splitText = .error fault →
      (Manifest.parseFile r files path).result = .error fault ∧
      (∀ message, fault = .fileMissing message →
        (Validation.ofFile r files path).result = .ok ⟨["File not found: " ++ path], none⟩) ∧
      (∀ message errors, fault = .malformed message errors →
        (Validation.ofFile r files path).result = .ok ⟨[message], none⟩)) := by
  constructor
  · intro text documents hread hsplit
    have hboth : (files path).readManifest path >>= splitText = .ok documents := by
      rw [hread]
      exact hsplit
    have htame := hr documents hboth
    have hparse : (Manifest.parse r text).result
        = (decodeAll r documents).result.map fun resources => ⟨resources, none⟩ := by
      simp only [Manifest.parse, hsplit]
    have hfile : (Manifest.parseFile r files path).result
        = (decodeAll r documents).result.map fun resources => ⟨resources, some path⟩ := by
      simp only [Manifest.parseFile, hread, hparse]
      cases (decodeAll r documents).result <;> rfl
    refine ⟨⟨(r.rejections 1 documents).map Rejection.report, some ⟨r.resolved documents, none⟩⟩,
      ?_, ?_, ?_⟩
    · simp only [Validation.ofFile, hboth, Validation.ofDocuments, result_validateAll htame 1]
      rfl
    · rw [hparse]
      exact agree_of_result htame none
    · rw [hfile]
      exact agree_of_result htame (some path)
  · intro fault hfault
    refine ⟨?_, ?_, ?_⟩
    · -- The fault is one of reading the file, or one of splitting its text.
      cases hread : (files path).readManifest path with
      | error fault' =>
        rw [hread] at hfault
        cases hfault
        simp only [Manifest.parseFile, hread]
      | ok text =>
        rw [hread] at hfault
        replace hfault : splitText text = .error fault := hfault
        simp only [Manifest.parseFile, hread, Manifest.parse, hfault]
        rfl
    · rintro message rfl
      simp only [Validation.ofFile, hfault, Validation.ofFault]
    · rintro message errors rfl
      simp only [Validation.ofFile, hfault, Validation.ofFault]

/-- A registry that takes every document of the kind `note` for a signature. -/
def noteRegistry : Registry Resource :=
  ⟨[⟨"note", none, fun d => .ok (.signature ⟨d.name⟩)⟩], by decide⟩

/-- A document with a resource, one that no family owns, and one without a kind. -/
def mixedText : String := "kind: note\n---\nkind: other\n---\nname: x\n"

/-- A directory with this text as its only file. -/
def mixedFiles : Files := fun path =>
  if path = "m.yml" then .file (mixedText.toList.map fun c => UInt8.ofNat c.toNat) else .missing

/-- On a file with documents of all three outcomes, validation and reading both fail. -/
theorem ofFile_agrees_parseFile_mixed :
    ∃ v, (Validation.ofFile noteRegistry mixedFiles "m.yml").result = .ok v ∧
      v.isValid = false ∧
      ¬ ∃ m, (Manifest.parseFile noteRegistry mixedFiles "m.yml").result = .ok m := by
  have htame : ∀ documents, noteRegistry.DecodesTamely documents := by
    intro documents f hf d _ _ fault hfault
    rw [show noteRegistry.families = [⟨"note", none, fun d => .ok (.signature ⟨d.name⟩)⟩] from rfl,
      List.mem_singleton] at hf
    subst hf
    cases hfault
  have hread : (mixedFiles "m.yml").readManifest "m.yml" = .ok mixedText := by
    have h : ((mixedFiles "m.yml").readManifest "m.yml").toOption = some mixedText := by
      decide +kernel
    cases htext : (mixedFiles "m.yml").readManifest "m.yml" with
    | error fault => simp [htext, Except.toOption] at h
    | ok text => simpa [htext, Except.toOption] using h
  have hkinds : (splitText mixedText).toOption.map (·.map Document.kind)
      = some ["note", "other", ""] := by decide +kernel
  cases hsplit : splitText mixedText with
  | error fault => simp [hsplit, Except.toOption] at hkinds
  | ok documents =>
    obtain ⟨v, hv, -, hagree⟩ :=
      (ofFile_agrees_parseFile noteRegistry mixedFiles "m.yml" fun ds _ => htame ds).1
        mixedText documents hread hsplit
    have hmem : "" ∈ documents.map Document.kind := by
      rw [hsplit] at hkinds
      simp [Option.some.inj hkinds]
    obtain ⟨d, hd, hkind⟩ := List.mem_map.mp hmem
    have hbad : ¬ v.isValid = true := by
      rw [hagree.isValid_iff]
      intro hall
      obtain ⟨resource?, h⟩ := hall d hd
      simp [Registry.resolve, hkind] at h
    exact ⟨v, hv, by simpa using hbad, hagree.parsed_iff.not.mp hbad⟩

end PipelineManifest
