import Mathlib.Data.List.Forall2
import PipelineManifest.Proofs.Resolution
import PipelineManifest.Proofs.Splitting

/-!
# `PipelineManifest.Proofs.Isolation`: how documents of one file stand in each other's way

Every document of a file can be put into a file of its own and be validated there. A file with many
documents is compared with what comes out of this for each of them.

Once a file has been split, its documents do not stand in each other's way: validation reports
exactly the documents that are rejected alone, each with the same reason, and keeps exactly what the
others hold alone. But splitting a file is not the work of validation, and it stops at the first
document that is no mapping or whose kind or type is no text. Then this document is the only one
that is reported, whatever else is wrong, and nothing is kept.

A document whose resolution has a fault that is none of a manifest ends the validation of every file
it is in, and of its own.

* `Validation.ofStream`: the validation of some documents, and so of one alone.
* `splitDocuments_eq_ok`, `splitDocuments_eq_error`: a stream is split as its documents are.
* `exists_ofStream_of_untagged`: which documents can be validated alone.
* `ofFile_alone`: a file with many documents against each of them alone.
-/

set_option autoImplicit false

namespace PipelineManifest

open Yaml (ComposeState SourcedValue readStream)

/-! ### Splitting, document by document -/

/-- Whether a document can be split off from a stream. -/
def Splits (v : SourcedValue) : Prop := ∃ ds, splitDocuments 0 [v] = .ok ds

/-- A kind or a type that a document can have. -/
def IsLabel (v : Option Value) : Prop := v = none ∨ v = some .null ∨ ∃ s, v = some (.str s)

theorem label_eq_ok_iff {v : Option Value} {field place : String} :
    (∃ s, Document.label v field place = .ok s) ↔ IsLabel v := by
  unfold Document.label
  split
  · exact iff_of_true ⟨_, rfl⟩ (.inl rfl)
  · exact iff_of_true ⟨_, rfl⟩ (.inr (.inl rfl))
  · exact iff_of_true ⟨_, rfl⟩ (.inr (.inr ⟨_, rfl⟩))
  -- Whatever is neither missing nor null nor a text is rejected.
  · rename_i w hnull hstr
    refine iff_of_false (fun h => nomatch h) ?_
    rintro (h | h | ⟨s, h⟩)
    · cases h
    · exact hnull (Option.some.inj h)
    · exact hstr s (Option.some.inj h)

theorem ofValue_eq_ok_iff {es fs : List (Value × Value)} {index : Nat}
    (hfs : (Value.map fs).isWritable = true) :
    (∃ d, Document.ofValue (.map es) index (.map fs) = .ok d)
      ↔ IsLabel (Value.field? "kind" es) ∧ IsLabel (Value.field? "type" es) := by
  obtain ⟨version, name, hvalue⟩ := Document.exists_ofValue_map hfs
  rw [hvalue]
  constructor
  · rintro ⟨d, h⟩
    obtain ⟨kind, hkind, h⟩ := Outcome.bind_eq_ok_iff.mp h
    obtain ⟨type, htype, -⟩ := Outcome.bind_eq_ok_iff.mp h
    exact ⟨label_eq_ok_iff.mp ⟨kind, hkind⟩, label_eq_ok_iff.mp ⟨type, htype⟩⟩
  · rintro ⟨hkind, htype⟩
    obtain ⟨kind, hkind⟩ := label_eq_ok_iff.mpr hkind
    obtain ⟨type, htype⟩ := label_eq_ok_iff.mpr htype
    rw [hkind, Outcome.ok_bind, htype]
    exact ⟨_, rfl⟩

/-- What can be split off: nothing, and the mappings whose kind and type are texts or missing. -/
theorem splits_iff {v : SourcedValue} (hsource : v.IsSourced) :
    Splits v ↔ v.data = .null ∨ ∃ es, v.data = .map es ∧
      IsLabel (Value.field? "kind" es) ∧ IsLabel (Value.field? "type" es) := by
  rw [Splits, splitDocuments]
  split
  · rename_i hnull
    exact iff_of_true ⟨[], rfl⟩ (.inl hnull)
  · rename_i es hes
    obtain ⟨fs, hfs, hwritable⟩ := hsource ⟨es, hes⟩
    simp only [hes, hfs, Value.map.injEq, exists_eq_left', reduceCtorEq, false_or]
    rw [← ofValue_eq_ok_iff hwritable]
    constructor
    · rintro ⟨ds, h⟩
      obtain ⟨d, hd, -⟩ := Outcome.bind_eq_ok_iff.mp h
      exact ⟨d, hd⟩
    · rintro ⟨d, hd⟩
      rw [hd]
      exact ⟨[d], rfl⟩
  · rename_i hnull hmap
    refine iff_of_false ?_ ?_
    · rintro ⟨ds, h⟩
      cases h
    rintro (h | ⟨es, h, -⟩)
    · exact hnull h
    · exact hmap es h

/-- What is split off for one document: nothing if it is empty. -/
def documentsOf (v : SourcedValue) : List Document :=
  match splitDocuments 0 [v] with
  | .ok ds => ds
  | .error _ => []

/-- The first document of a stream is split off first. -/
theorem splitDocuments_cons (index : Nat) (v : SourcedValue) (vs : List SourcedValue) :
    splitDocuments index (v :: vs) = (do
      let ds ← splitDocuments index [v]
      return ds ++ (← splitDocuments (index + 1) vs)) := by
  rw [splitDocuments, splitDocuments]
  -- The document is empty, it is a mapping, or it is something else.
  split
  · cases splitDocuments (index + 1) vs <;> rfl
  · cases Document.ofValue v.data index v.source with
    | error fault => rfl
    | ok d => cases splitDocuments (index + 1) vs <;> rfl
  · rfl

theorem label_place {v : Option Value} {field place kind : String}
    (h : Document.label v field place = .ok kind) (place' : String) :
    Document.label v field place' = .ok kind := by
  unfold Document.label at h ⊢
  split at h
  · exact h
  · exact h
  · exact h
  · cases h

/-- The index of a document is for messages only. -/
theorem ofValue_index {data source : Value} {i : Nat} {d : Document}
    (h : Document.ofValue data i source = .ok d) (j : Nat) :
    Document.ofValue data j source = .ok d := by
  obtain ⟨kind?, hkind?, h⟩ := Outcome.bind_eq_ok_iff.mp h
  obtain ⟨kind, hkind, h⟩ := Outcome.bind_eq_ok_iff.mp h
  obtain ⟨type?, htype?, h⟩ := Outcome.bind_eq_ok_iff.mp h
  obtain ⟨type, htype, h⟩ := Outcome.bind_eq_ok_iff.mp h
  rw [Document.ofValue, hkind?, Outcome.ok_bind, label_place hkind _, Outcome.ok_bind, htype?,
    Outcome.ok_bind, label_place htype _, Outcome.ok_bind]
  exact h

theorem splitDocuments_index {v : SourcedValue} {i : Nat} {ds : List Document}
    (h : splitDocuments i [v] = .ok ds) (j : Nat) : splitDocuments j [v] = .ok ds := by
  rw [splitDocuments] at h ⊢
  split at h
  · exact h
  · obtain ⟨d, hd, h⟩ := Outcome.bind_eq_ok_iff.mp h
    rw [ofValue_index hd j]
    exact h
  · cases h

theorem Splits.documentsOf {v : SourcedValue} (h : Splits v) (index : Nat) :
    splitDocuments index [v] = .ok (documentsOf v) := by
  obtain ⟨ds, hds⟩ := h
  rw [PipelineManifest.documentsOf, hds]
  exact splitDocuments_index hds index

/-- A document of a stream makes one document, or none if it is empty. -/
theorem Splits.documentsOf_cases {v : SourcedValue} (h : Splits v) :
    PipelineManifest.documentsOf v = [] ∨ ∃ d, PipelineManifest.documentsOf v = [d] ∧
      Document.ofValue v.data 0 v.source = .ok d := by
  have hsplit := h.documentsOf 0
  rw [splitDocuments] at hsplit
  split at hsplit
  · exact .inl (Except.ok.inj hsplit).symm
  · obtain ⟨d, hd, hsplit⟩ := Outcome.bind_eq_ok_iff.mp hsplit
    exact .inr ⟨d, (Except.ok.inj hsplit).symm, hd⟩
  · cases hsplit

/-- A stream of documents that can be split off is split into what they make. -/
theorem splitDocuments_eq_ok (index : Nat) {vs : List SourcedValue} (h : ∀ v ∈ vs, Splits v) :
    splitDocuments index vs = .ok (vs.flatMap documentsOf) := by
  induction vs generalizing index with
  | nil => rfl
  | cons v vs ih =>
    obtain ⟨hv, hvs⟩ := List.forall_mem_cons.mp h
    rw [splitDocuments_cons, hv.documentsOf index, Outcome.ok_bind, ih (index + 1) hvs]
    rfl

/-- A stream cannot be split where one of its documents cannot, and the fault is that of the first
such document. -/
theorem splitDocuments_eq_error (index : Nat) {before after : List SourcedValue} {v : SourcedValue}
    (hbefore : ∀ u ∈ before, Splits u) {fault : Fault}
    (h : splitDocuments (index + before.length) [v] = .error fault) :
    splitDocuments index (before ++ v :: after) = .error fault := by
  induction before generalizing index with
  | nil =>
    rw [List.nil_append, splitDocuments_cons, show splitDocuments index [v] = .error fault from h]
    rfl
  | cons u before ih =>
    obtain ⟨hu, hbefore⟩ := List.forall_mem_cons.mp hbefore
    rw [List.length_cons, Nat.add_comm before.length, ← Nat.add_assoc] at h
    rw [List.cons_append, splitDocuments_cons, hu.documentsOf index, Outcome.ok_bind,
      ih (index + 1) hbefore h]
    rfl

/-! ### Documents alone -/

section Alone

variable (r : Registry Resource)

/-- The validation of some documents that have been read from a file. Of the file itself nothing is
needed: that its documents cannot be split off has nothing to do with its path. -/
def Validation.ofStream (vs : List SourcedValue) : Outcome Validation :=
  match splitDocuments 0 vs with
  | .error fault => ofFault "" fault
  | .ok ds => (ofDocuments r ds).result

/-- Whether a document is reported when it is alone in a file. -/
def rejectedAlone (v : SourcedValue) : Bool :=
  match Validation.ofStream r [v] with
  | .ok w => !w.isValid
  | .error _ => false

/-- What a document holds when it is alone in a file. -/
def heldAlone (v : SourcedValue) : List Resource :=
  match Validation.ofStream r [v] with
  | .ok w => (w.manifest.map (·.resources)).getD []
  | .error _ => []

/-- An error is what is reported about a document alone, but for the position in its label. -/
def ReportsAlone (v : SourcedValue) (error : String) : Prop :=
  ∃ d position message,
    (Validation.ofStream r [v]).map (·.errors)
      = .ok [Validation.label 1 d ++ ": " ++ message] ∧
    error = Validation.label position d ++ ": " ++ message

variable {r}

theorem ofStream_eq {vs : List SourcedValue} (h : ∀ v ∈ vs, Splits v) :
    Validation.ofStream r vs = (Validation.ofDocuments r (vs.flatMap documentsOf)).result := by
  rw [Validation.ofStream, splitDocuments_eq_ok 0 h]

/-- The validation of a file is that of the documents that are read from it. -/
theorem ofFile_eq_ofStream {files : Files} {path text : String} {vs : List SourcedValue}
    (hread : (files path).readManifest path = .ok text) (hstream : readStream text = .ok vs) :
    (Validation.ofFile r files path).result = Validation.ofStream r vs := by
  have hboth : (files path).readManifest path >>= splitText = splitDocuments 0 vs := by
    rw [hread]
    show splitText text = _
    rw [splitText, hstream]
    rfl
  rw [Validation.ofFile, Validation.ofStream, hboth]
  -- A fault of splitting is malformed, and of such a fault the path is not shown.
  have hfaults := satisfies_splitDocuments 0 (Yaml.isSourced_of_readStream hstream)
  cases hsplit : splitDocuments 0 vs with
  | ok ds => rfl
  | error fault =>
    obtain ⟨message, errors, rfl⟩ := hfaults.of_eq_error hsplit
    rfl

/-! ### One document after the other -/

section Steps

variable {d : Document}

theorem validateAll_of_ok {resource? : Option Resource} (h : r.resolve d = .ok resource?)
    (position : Nat) (ds : List Document) :
    (Validation.validateAll r position (d :: ds)).result
      = (Validation.validateAll r (position + 1) ds).result.map
          fun x => (x.1, resource?.toList ++ x.2) := by
  simp only [Validation.validateAll, Registry.resolveLogged, h]

theorem validateAll_of_isManifestFault {fault : Fault} (h : r.resolve d = .error fault)
    (hfault : fault.isManifestFault = true) (position : Nat) (ds : List Document) :
    (Validation.validateAll r position (d :: ds)).result
      = (Validation.validateAll r (position + 1) ds).result.map fun x =>
          ((Validation.label position d ++ ": " ++ fault.message?.getD "") :: x.1, x.2) := by
  simp only [Validation.validateAll, Registry.resolveLogged, h, hfault, if_true]

theorem validateAll_of_not_isManifestFault {fault : Fault} (h : r.resolve d = .error fault)
    (hfault : ¬ fault.isManifestFault = true) (position : Nat) (ds : List Document) :
    (Validation.validateAll r position (d :: ds)).result = .error fault := by
  simp only [Validation.validateAll, Registry.resolveLogged, h, if_neg hfault]

end Steps

/-- What validation makes of a document, alone and before others: it keeps what the document holds,
or reports it, or ends. -/
theorem validateAll_documentsOf {v : SourcedValue} (hv : Splits v) :
    (∃ w, Validation.ofStream r [v] = .ok w ∧ ∀ position ds, ∃ position' errors,
      List.Forall₂ (ReportsAlone r) ([v].filter (rejectedAlone r)) errors ∧
      (Validation.validateAll r position (documentsOf v ++ ds)).result
        = (Validation.validateAll r position' ds).result.map
            fun x => (errors ++ x.1, heldAlone r v ++ x.2)) ∨
    ∃ fault, Validation.ofStream r [v] = .error fault ∧ ∀ position ds,
      (Validation.validateAll r position (documentsOf v ++ ds)).result = .error fault := by
  have halone : Validation.ofStream r [v]
      = (Validation.ofDocuments r (documentsOf v)).result := by
    rw [ofStream_eq (by simpa using hv), List.flatMap_singleton]
  rcases hv.documentsOf_cases with hnone | ⟨d, hd, -⟩
  · -- An empty document is nothing to validation.
    rw [hnone] at halone ⊢
    refine .inl ⟨_, halone, fun position ds => ⟨position, [], ?_, ?_⟩⟩
    · have hrejected : rejectedAlone r v = false := by
        rw [rejectedAlone, halone]
        rfl
      rw [List.filter_singleton, hrejected]
      exact .nil
    · have hheld : heldAlone r v = [] := by
        rw [heldAlone, halone]
        rfl
      rw [hheld]
      cases h : (Validation.validateAll r position ds).result <;> simp [h, Except.map]
  · rw [hd] at halone ⊢
    simp only [Validation.ofDocuments] at halone
    cases hresolve : r.resolve d with
    -- What a document holds, if it has a family, is put before what the others hold.
    | ok resource? =>
      rw [validateAll_of_ok hresolve] at halone
      refine .inl ⟨_, halone, fun position ds => ⟨position + 1, [], ?_, ?_⟩⟩
      · have hrejected : rejectedAlone r v = false := by
          rw [rejectedAlone, halone]
          rfl
        rw [List.filter_singleton, hrejected]
        exact .nil
      · have hheld : heldAlone r v = resource?.toList := by
          rw [heldAlone, halone]
          exact List.append_nil _
        rw [hheld]
        exact validateAll_of_ok hresolve position ds
    -- The label of an error has the position in the file, so alone and together it can differ.
    | error fault =>
      by_cases hfault : fault.isManifestFault = true
      · rw [validateAll_of_isManifestFault hresolve hfault] at halone
        refine .inl ⟨_, halone, fun position ds => ⟨position + 1,
          [Validation.label position d ++ ": " ++ fault.message?.getD ""], ?_, ?_⟩⟩
        · have hrejected : rejectedAlone r v = true := by
            rw [rejectedAlone, halone]
            rfl
          rw [List.filter_singleton, hrejected]
          refine .cons ⟨d, position, fault.message?.getD "", ?_, rfl⟩ .nil
          rw [halone]
          rfl
        · have hheld : heldAlone r v = [] := by
            rw [heldAlone, halone]
            rfl
          rw [hheld]
          exact validateAll_of_isManifestFault hresolve hfault position ds
      · rw [validateAll_of_not_isManifestFault hresolve hfault] at halone
        exact .inr ⟨fault, halone, validateAll_of_not_isManifestFault hresolve hfault⟩

/-- A document without explicit tags whose numbers are short enough can be validated alone, whatever
else is wrong with it. -/
theorem exists_ofStream_of_untagged {text : String}
    (htext : ∀ t ∈ (ComposeState.start text).tokens, t.isTag = false) {vs : List SourcedValue}
    (hstream : readStream text = .ok vs) {v : SourcedValue} (hmem : v ∈ vs) (hv : Splits v)
    (hwritable : v.data.isWritable = true) :
    ∃ w, Validation.ofStream defaultRegistry [v] = .ok w := by
  rw [ofStream_eq (by simpa using hv), List.flatMap_singleton]
  rcases hv.documentsOf_cases with hnone | ⟨d, hd, hofValue⟩
  · rw [hnone]
    exact ⟨_, rfl⟩
  · obtain ⟨g, root, hg, hsourced⟩ := Yaml.exists_graph_of_readStream htext hstream v hmem
    obtain ⟨ℓ, -, hℓ, hdata, hsource⟩ := Yaml.Graph.sourced_eq_read hg hsourced
    obtain ⟨hd₁, hd₂⟩ := Document.ofValue_parts hofValue
    have hreport : ∀ schema, d.schema? = some schema → schema.isReportable d.data = true :=
      fun schema _ => schema.isReportable_of_isWritable (hd₁ ▸ hwritable)
    rw [hdata] at hd₁ hd₂
    rw [hsource] at hd₂
    have hresolve := yields_resolve hℓ hd₁ hd₂ hreport
    rw [hd]
    simp only [Validation.ofDocuments]
    cases h : defaultRegistry.resolve d with
    | ok resource? =>
      rw [validateAll_of_ok h]
      exact ⟨_, rfl⟩
    | error fault =>
      rw [validateAll_of_isManifestFault h (hresolve.of_eq_error h)]
      exact ⟨_, rfl⟩

/-! ### Documents together -/

/-- The documents that are reported alone are reported together, in order, and what the others hold
alone is kept together, in order. -/
theorem validateAll_flatMap {vs : List SourcedValue} (hvs : ∀ v ∈ vs, Splits v)
    (halone : ∀ v ∈ vs, ∃ w, Validation.ofStream r [v] = .ok w) (position : Nat) :
    ∃ errors, (Validation.validateAll r position (vs.flatMap documentsOf)).result
        = .ok (errors, vs.flatMap (heldAlone r)) ∧
      List.Forall₂ (ReportsAlone r) (vs.filter (rejectedAlone r)) errors := by
  -- An empty document takes no position, so the positions of the rest are not fixed.
  induction vs generalizing position with
  | nil => exact ⟨[], rfl, .nil⟩
  | cons v vs ih =>
    obtain ⟨hv, hvs⟩ := List.forall_mem_cons.mp hvs
    obtain ⟨⟨w, hw⟩, halone⟩ := List.forall_mem_cons.mp halone
    rcases validateAll_documentsOf (r := r) hv with ⟨_, -, hstep⟩ | ⟨fault, hfault, -⟩
    · obtain ⟨position', errors, herrors, hresult⟩ := hstep position (vs.flatMap documentsOf)
      obtain ⟨errors', hrest, herrors'⟩ := ih hvs halone position'
      refine ⟨errors ++ errors', ?_, ?_⟩
      · rw [List.flatMap_cons, hresult, hrest]
        rfl
      · rw [← List.singleton_append, List.filter_append]
        exact List.rel_append herrors herrors'
    · rw [hw] at hfault
      cases hfault

/-- A document whose own validation does not return ends the validation of all. -/
theorem validateAll_flatMap_error {before after : List SourcedValue} {v : SourcedValue}
    (hsplit : ∀ u ∈ before ++ v :: after, Splits u)
    (halone : ∀ u ∈ before, ∃ w, Validation.ofStream r [u] = .ok w) {fault : Fault}
    (hv : Validation.ofStream r [v] = .error fault) (position : Nat) :
    (Validation.validateAll r position ((before ++ v :: after).flatMap documentsOf)).result
      = .error fault := by
  induction before generalizing position with
  | nil =>
    rcases validateAll_documentsOf (r := r) (hsplit v (by simp)) with
      ⟨w, hw, -⟩ | ⟨fault', hfault', hstep⟩
    · rw [hv] at hw
      cases hw
    · rw [hv] at hfault'
      cases hfault'
      rw [List.nil_append, List.flatMap_cons]
      exact hstep position _
  | cons u before ih =>
    obtain ⟨⟨w, hw⟩, halone⟩ := List.forall_mem_cons.mp halone
    obtain ⟨hu, hsplit⟩ := List.forall_mem_cons.mp hsplit
    rcases validateAll_documentsOf (r := r) hu with ⟨_, -, hstep⟩ | ⟨fault', hfault', -⟩
    · obtain ⟨position', errors, -, hresult⟩ :=
        hstep position ((before ++ v :: after).flatMap documentsOf)
      rw [List.cons_append, List.flatMap_cons, hresult, ih hsplit halone position']
      rfl
    · rw [hw] at hfault'
      cases hfault'

/-- Take a file whose text is YAML. If all its documents can be split off and each of them can be
validated alone, then the file is validated: there is one error for each document that is rejected
alone, in order, with the reason that it has alone, and the manifest holds what the documents hold
alone, in order. If the validation of a document alone does not return, neither does that of the
file. If a document cannot be split off, its fault is the only error, and there is no manifest. -/
theorem ofFile_alone (r : Registry Resource) (files : Files) (path : String) {text : String}
    {vs : List SourcedValue} (hread : (files path).readManifest path = .ok text)
    (hstream : readStream text = .ok vs) :
    ((∀ v ∈ vs, Splits v) →
      ((∀ v ∈ vs, ∃ w, Validation.ofStream r [v] = .ok w) →
        ∃ w, (Validation.ofFile r files path).result = .ok w ∧
          List.Forall₂ (ReportsAlone r) (vs.filter (rejectedAlone r)) w.errors ∧
          w.manifest.map (·.resources) = some (vs.flatMap (heldAlone r))) ∧
      ∀ before v after fault, vs = before ++ v :: after →
        (∀ u ∈ before, ∃ w, Validation.ofStream r [u] = .ok w) →
        Validation.ofStream r [v] = .error fault →
        (Validation.ofFile r files path).result = .error fault) ∧
    ∀ before v after fault, vs = before ++ v :: after → (∀ u ∈ before, Splits u) →
      splitDocuments before.length [v] = .error fault →
      ∃ message, fault.message? = some message ∧
        (Validation.ofFile r files path).result = .ok ⟨[message], none⟩ := by
  rw [ofFile_eq_ofStream hread hstream]
  refine ⟨fun hsplit => ⟨fun halone => ?_, ?_⟩, ?_⟩
  · obtain ⟨errors, hresult, herrors⟩ := validateAll_flatMap hsplit halone 1
    refine ⟨⟨errors, some { resources := vs.flatMap (heldAlone r) }⟩, ?_, herrors, rfl⟩
    rw [ofStream_eq hsplit, Validation.ofDocuments]
    dsimp only
    rw [hresult]
    rfl
  · rintro before v after fault rfl halone hv
    rw [ofStream_eq hsplit, Validation.ofDocuments]
    dsimp only
    rw [validateAll_flatMap_error hsplit halone hv 1]
    rfl
  -- Splitting comes before validating, so that its fault is reported and nothing else.
  · rintro before v after fault rfl hbefore hv
    have hsplit : splitDocuments 0 (before ++ v :: after) = .error fault :=
      splitDocuments_eq_error 0 hbefore (by rwa [Nat.zero_add])
    obtain ⟨message, errors, rfl⟩ := (satisfies_splitDocuments 0
      (Yaml.isSourced_of_readStream hstream)).of_eq_error hsplit
    refine ⟨message, rfl, ?_⟩
    rw [Validation.ofStream, hsplit]
    rfl

end Alone

/-- A good document, one that breaks its schema, an empty one, one that no family owns, and one
without a kind. -/
def severalText : String :=
  "kind: secret\nname: a\n---\nkind: secret\n---\n---\nkind: other\n---\nname: x\n"

/-- Both bad documents are reported, and the secret is kept. -/
theorem ofFile_alone_several :
    ∃ w, (Validation.ofFile defaultRegistry (onlyFile severalText) "m.yml").result = .ok w ∧
      w.errors.length = 2 ∧ (w.manifest.map (·.resources.length)) = some 1 := by
  have hrun : ((onlyFile severalText "m.yml").readManifest "m.yml").toOption = some severalText ∧
      ((readStream severalText).toOption.any fun vs =>
        vs.all (fun v => (splitDocuments 0 [v]).toOption.isSome
          && (Validation.ofStream defaultRegistry [v]).toOption.isSome)
        && (vs.filter (rejectedAlone defaultRegistry)).length = 2
        && (vs.flatMap (heldAlone defaultRegistry)).length = 1) = true := by
    decide +kernel
  obtain ⟨htext, hstream⟩ := hrun
  obtain ⟨vs, hvs, hfacts⟩ := Outcome.exists_of_any hstream
  simp only [Bool.and_eq_true, List.all_eq_true, decide_eq_true_eq] at hfacts
  obtain ⟨⟨heach, hrejected⟩, hheld⟩ := hfacts
  obtain ⟨w, hw, herrors, hmanifest⟩ :=
    ((ofFile_alone defaultRegistry _ _ (Outcome.eq_ok_of_toOption htext) hvs).1 fun v hv =>
      Outcome.exists_of_isSome (heach v hv).1).1 fun v hv =>
        Outcome.exists_of_isSome (heach v hv).2
  refine ⟨w, hw, ?_, ?_⟩
  · rw [← herrors.length_eq, hrejected]
  · obtain ⟨m, hm, hresources⟩ := Option.map_eq_some_iff.mp hmanifest
    rw [hm, Option.map_some, hresources, hheld]

/-- A document that is no mapping, a good one, and one without a kind. -/
def listText : String := "- a\n---\nkind: secret\nname: s\n---\nname: x\n"

/-- Two of the documents are rejected alone and the third is good, but the file has one error and no
manifest. -/
theorem ofFile_listText :
    ∃ vs message, readStream listText = .ok vs ∧
      (vs.filter (rejectedAlone defaultRegistry)).length = 2 ∧
      (vs.flatMap (heldAlone defaultRegistry)).length = 1 ∧
      (Validation.ofFile defaultRegistry (onlyFile listText) "m.yml").result
        = .ok ⟨[message], none⟩ := by
  have hrun : ((readStream listText).toOption.any fun vs =>
      (vs.filter (rejectedAlone defaultRegistry)).length = 2
        && (vs.flatMap (heldAlone defaultRegistry)).length = 1) = true := by
    decide +kernel
  have hvalidated : ((Validation.ofFile defaultRegistry (onlyFile listText)
      "m.yml").result.toOption.any fun w =>
        w.errors.length = 1 && w.manifest.isNone) = true := by
    decide +kernel
  obtain ⟨vs, hvs, hfacts⟩ := Outcome.exists_of_any hrun
  obtain ⟨⟨errors, manifest⟩, hw, hsizes⟩ := Outcome.exists_of_any hvalidated
  simp only [Bool.and_eq_true, decide_eq_true_eq, Option.isNone_iff_eq_none] at hfacts hsizes
  obtain ⟨message, rfl⟩ := List.length_eq_one_iff.mp hsizes.1
  obtain ⟨-, rfl⟩ := hsizes
  exact ⟨vs, message, hvs, hfacts.1, hfacts.2, hw⟩

end PipelineManifest
