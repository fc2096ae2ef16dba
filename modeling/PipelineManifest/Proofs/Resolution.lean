import PipelineManifest.Proofs.Pipeline.SourceShape
import PipelineManifest.Proofs.RoundTrip
import PipelineManifest.Proofs.Schema.Writable
import PipelineManifest.Proofs.Value.Same
import PipelineManifest.Proofs.Yaml.Sourced
import PipelineManifest.Proofs.Yaml.Untagged

/-!
# `PipelineManifest.Proofs.Resolution`: documents are resolved or rejected

Resolving a document that was read from a file gives a resource, gives nothing because no family
owns the document, or fails with a fault of a manifest. No other fault of the decoders is left, for
all that they read from the source without a check.

There is one exception. A check of a schema writes its messages, and a message that shows a number
of too many digits cannot be written (`Schema.isReportable`). Such a number can be read, in a base
that is a power of two.

* `yields_resolve`: a document whose violations can be written is resolved up to faults of a
  manifest.
* `resolve_of_not_isReportable`: no family resolves a document whose violations cannot be written.
* `resolve_of_sourced`: both together, for all documents without explicit tags.
-/

set_option autoImplicit false

namespace PipelineManifest

open Outcome (Yields satisfies_of_eq_ok)
open Yaml (ComposeState Graph Layout NodeId SourcedValue Tag booleanWords composeDocument
  dropFinalBreak isFloatForm isIntegerForm readInteger)

/-! ### The families -/

namespace Pipeline

/-- A pipeline document is resolved up to faults of a manifest, if its violations can be written. -/
theorem yields_ofDocumentLinted {d : Document} {ℓ : Layout} (hℓ : ℓ.isSound 0 = true)
    (hdata : d.data = ℓ.data) (hsource : d.source = ℓ.source.orData ℓ.data)
    (h : Schema.pipeline.isReportable d.data = true) :
    Yields (fun _ => True) (ofDocumentLinted d) := by
  have hpipeline : Yields (fun q => ∀ s ∈ q.steps, s.name.IsText) (ofDocument d) := by
    refine (Schema.yields_check h _).bind fun _ haccepts => ?_
    rw [hdata] at haccepts
    have hdecode := Layout.yields_decode hℓ haccepts
    -- An accepted document has a name, so neither of its readings is empty.
    obtain ⟨es, hes, hrequired, -⟩ := Schema.accepts_requiredObject_iff.mp haccepts
    obtain ⟨entries, rfl, rfl⟩ := Layout.eq_map_of_data hes
    obtain ⟨w, hw⟩ := hrequired "name" (by simp)
    rw [Layout.field?_data, Option.map_eq_some_iff] at hw
    obtain ⟨q, hq, -⟩ := hw
    have hname : Tag.ofPlain "name" = .text := rfl
    have hfield := Layout.field?_source hℓ hname
    have htruthy : d.source.isTruthy = true := by
      rw [hsource, Layout.source_map, Value.orData_map, Value.isTruthy]
      cases hempty : Layout.sourceEntries entries with
      | nil =>
        rw [hempty, hq] at hfield
        cases hfield
      | cons e es => rfl
    rw [if_pos htruthy, hdata, hsource, Layout.source_map, Value.orData_map, ← Layout.source_map]
    exact hdecode
  exact hpipeline.bind fun p hp => (yields_lint hp).bind fun _ _ => trivial

end Pipeline

/-! ### Documents -/

/-- The schema of the documents of a kind and a type, if a family owns them. -/
def Document.schema? (d : Document) : Option Schema :=
  if d.kind = Secret.documentKind then some Schema.secret
  else if d.kind = Signature.documentKind then some Schema.signature
  else if Pipeline.isOwn d then some Schema.pipeline
  else none

theorem Secret.yields_decode {d : Document} (h : Schema.secret.isReportable d.data = true) :
    Yields (fun _ => True) (Secret.decode d) := by
  by_cases haccepts : Schema.secret.accepts d.data = true
  · obtain ⟨s, hs, -⟩ := decode_of_accepts haccepts
    exact satisfies_of_eq_ok hs trivial
  · exact (Schema.yields_check h _).bind fun _ h => absurd h haccepts

theorem Signature.yields_decode {d : Document} (h : Schema.signature.isReportable d.data = true) :
    Yields (fun _ => True) (Signature.decode d) := by
  by_cases haccepts : Schema.signature.accepts d.data = true
  · obtain ⟨s, hs, -⟩ := decode_of_accepts haccepts
    exact satisfies_of_eq_ok hs trivial
  · exact (Schema.yields_check h _).bind fun _ h => absurd h haccepts

/-- A document whose violations can be written is resolved up to faults of a manifest. -/
theorem yields_resolve {d : Document} {ℓ : Layout} (hℓ : ℓ.isSound 0 = true)
    (hdata : d.data = ℓ.data) (hsource : d.source = ℓ.source.orData ℓ.data)
    (h : ∀ schema, d.schema? = some schema → schema.isReportable d.data = true) :
    Yields (fun _ => True) (defaultRegistry.resolve d) := by
  rw [resolve_defaultRegistry]
  split_ifs with hempty hsecret hsignature hpipeline
  · rfl
  · have hschema : d.schema? = some Schema.secret := if_pos hsecret
    exact (Secret.yields_decode (h _ hschema)).map fun _ _ => trivial
  · have hschema : d.schema? = some Schema.signature := by
      rw [Document.schema?, if_neg hsecret, if_pos hsignature]
    exact (Signature.yields_decode (h _ hschema)).map fun _ _ => trivial
  · have hschema : d.schema? = some Schema.pipeline := by
      rw [Document.schema?, if_neg hsecret, if_neg hsignature, if_pos hpipeline]
    exact (Pipeline.yields_ofDocumentLinted hℓ hdata hsource (h _ hschema)).map fun _ _ => trivial
  · trivial

/-- Every family checks the schema of a document first. -/
theorem resolve_of_not_isReportable {d : Document} {schema : Schema} (hd : d.schema? = some schema)
    (h : schema.isReportable d.data = false) :
    defaultRegistry.resolve d = .error .invalidValue := by
  rw [Document.schema?] at hd
  rw [resolve_defaultRegistry]
  by_cases hsecret : d.kind = Secret.documentKind
  · rw [if_pos hsecret] at hd
    cases hd
    have hkind : d.kind ≠ "" := by
      rw [hsecret]
      decide
    rw [if_neg hkind, if_pos hsecret, Secret.decode, Schema.check_of_not_isReportable h]
    rfl
  rw [if_neg hsecret] at hd
  by_cases hsignature : d.kind = Signature.documentKind
  · rw [if_pos hsignature] at hd
    cases hd
    have hkind : d.kind ≠ "" := by
      rw [hsignature]
      decide
    rw [if_neg hkind, if_neg hsecret, if_pos hsignature, Signature.decode,
      Schema.check_of_not_isReportable h]
    rfl
  rw [if_neg hsignature] at hd
  by_cases hpipeline : Pipeline.isOwn d = true
  · rw [if_pos hpipeline] at hd
    cases hd
    have hkind : d.kind ≠ "" := by
      intro hempty
      simp [Pipeline.isOwn, hempty, Pipeline.documentKind] at hpipeline
    rw [if_neg hkind, if_neg hsecret, if_neg hsignature, if_pos hpipeline,
      Pipeline.ofDocumentLinted, Pipeline.ofDocument, Schema.check_of_not_isReportable h]
    rfl
  · rw [if_neg hpipeline] at hd
    cases hd

/-- A document without explicit tags is resolved, or it is rejected with a fault of a manifest, or
its family cannot write the violations of its schema. The last happens only to documents that hold a
number of too many digits. -/
theorem resolve_of_sourced {g : Graph} {root : NodeId} {v : SourcedValue} {index : Nat}
    {d : Document} (hg : g.IsUntagged) (hv : g.sourced root = .ok v)
    (hd : Document.ofValue v.data index v.source = .ok d) :
    (∀ fault, defaultRegistry.resolve d = .error fault →
      fault.isManifestFault = true ∨ fault = .invalidValue) ∧
    (defaultRegistry.resolve d = .error .invalidValue ↔
      ∃ schema, d.schema? = some schema ∧ schema.isReportable d.data = false) ∧
    (d.data.isWritable = true → ∀ fault, defaultRegistry.resolve d = .error fault →
      fault.isManifestFault = true) := by
  obtain ⟨ℓ, -, hℓ, hdata, hsource⟩ := Graph.sourced_eq_read hg hv
  obtain ⟨hd₁, hd₂⟩ := Document.ofValue_parts hd
  rw [hdata] at hd₁ hd₂
  rw [hsource] at hd₂
  have hyields := yields_resolve hℓ hd₁ hd₂
  by_cases hreport : ∃ schema, d.schema? = some schema ∧ schema.isReportable d.data = false
  -- The check of the schema comes first in every family, so nothing else can go wrong before it.
  · obtain ⟨schema, hschema, hbad⟩ := hreport
    have hresolve := resolve_of_not_isReportable hschema hbad
    refine ⟨fun fault h => .inr ?_, iff_of_true hresolve ⟨schema, hschema, hbad⟩, fun h => ?_⟩
    · rw [hresolve] at h
      exact (Except.error.inj h).symm
    · rw [Schema.isReportable_of_isWritable schema h] at hbad
      cases hbad
  · have hresolve : Yields (fun _ => True) (defaultRegistry.resolve d) := by
      refine hyields fun schema hschema => ?_
      by_contra hbad
      exact hreport ⟨schema, hschema, by simpa using hbad⟩
    refine ⟨fun fault h => .inl (hresolve.of_eq_error h), iff_of_false (fun h => ?_) hreport,
      fun _ fault h => hresolve.of_eq_error h⟩
    cases hresolve.of_eq_error h

/-- An environment with two keys that are the same number. The data keeps the second entry alone,
the source has both, and the first is no variable. -/
def sharedKeyText : String := String.intercalate "\n" [
  "kind: pipeline",
  "type: ssh",
  "name: build",
  "steps:",
  "- name: test",
  "  environment: \x7b1: [], 0x1: on\x7d"]

theorem resolve_of_sourced_sharedKey :
    ∃ s v d fault, composeDocument true (ComposeState.start sharedKeyText) = .ok (some 0, s) ∧
      s.graph.sourced 0 = .ok v ∧ Document.ofValue v.data 0 v.source = .ok d ∧
      Schema.pipeline.accepts d.data = true ∧ defaultRegistry.resolve d = .error fault ∧
      fault.isManifestFault = true := by
  have hrun : ((ComposeState.start sharedKeyText).tokens.all (!·.isTag) &&
      (composeDocument true (ComposeState.start sharedKeyText)).toOption.any fun r =>
        r.1 = some 0 && (r.2.graph.sourced 0).toOption.any fun v =>
          (Document.ofValue v.data 0 v.source).toOption.any fun d =>
            d.data.isWritable && Schema.pipeline.accepts d.data
              && (defaultRegistry.resolve d).toOption.isNone) = true := by
    decide +kernel
  rw [Bool.and_eq_true] at hrun
  have htokens : ∀ t ∈ (ComposeState.start sharedKeyText).tokens, t.isTag = false := by
    simpa using hrun.1
  obtain ⟨⟨root?, s⟩, hcompose, hfound⟩ := Outcome.exists_of_any hrun.2
  simp only [Bool.and_eq_true, decide_eq_true_eq] at hfound
  obtain ⟨rfl, hsourced⟩ := hfound
  obtain ⟨v, hv, hdocument⟩ := Outcome.exists_of_any hsourced
  obtain ⟨d, hd, hfacts⟩ := Outcome.exists_of_any hdocument
  simp only [Bool.and_eq_true] at hfacts
  obtain ⟨⟨hwritable, haccepts⟩, hnone⟩ := hfacts
  obtain ⟨hs, -⟩ := Yaml.keeps_composeDocument true _ _ s
    ⟨htokens, Graph.IsUntagged.empty⟩ hcompose
  cases hresolve : defaultRegistry.resolve d with
  | ok resource? =>
    rw [hresolve] at hnone
    cases hnone
  | error fault =>
    exact ⟨s, v, d, fault, hcompose, hv, hd, haccepts, hresolve,
      (resolve_of_sourced hs.graph hv hd).2.2 hwritable fault hresolve⟩

/-! ### A number of too many digits -/

section LongNumber

/-- A number whose digits stand for four binary digits each, so that there are fewer of them than in
base ten. -/
def longDigits : List Char := '0' :: 'x' :: List.replicate 3600 'F'

/-- The number that these digits stand for. -/
def longNumber : Int := Int.ofNat (Nat.pow 16 3600) - 1

/-- A secret whose name is a number. -/
def secretNamed (text : String) : Graph := ⟨#[
  .scalar .text "kind", .scalar .text "secret", .scalar .text "name", .scalar .integer text,
  .mapping .mapping [(0, 1), (2, 3)]]⟩

theorem isUntagged_secretNamed {text : String} (h : Tag.ofPlain text = .integer) :
    (secretNamed text).IsUntagged := by
  intro id
  match id with
  | 0 | 1 | 2 => exact .inl rfl
  | 3 => exact .inr h.symm
  | 4 => exact rfl
  | id + 5 => exact .inl rfl

section Reading

variable {text : String} {n : Int} (h : Tag.integer.read? text = some (.ok (.int n)))
include h

/-- What the mapping of the document holds. -/
theorem expand_secretNamed : (secretNamed text).expand 4 = .ok (secretNamed text,
    .map [(.str "kind", .leaf (.str "secret")), (.str "name", .leaf (.int n))]) := by
  have hname : (secretNamed text).slot 3 = .ok (.leaf (.int n)) := by
    simp [Graph.slot, Graph.isContainerTag, Graph.tag, Graph.node, secretNamed, Yaml.Node.tag,
      Graph.scalarValue, Graph.scalarText, h, Except.map, bind, Except.bind]
  have hkind : (secretNamed text).entrySlot (0, 1) = .ok (.str "kind", .leaf (.str "secret")) :=
    rfl
  have hentry : (secretNamed text).entrySlot (2, 3) = .ok (.str "name", .leaf (.int n)) := by
    show (do return (Value.str "name", ← (secretNamed text).slot 3)) = _
    rw [hname]
    rfl
  have hshape : (secretNamed text).shape 4
      = .ok (.map [(.str "kind", .leaf (.str "secret")), (.str "name", .leaf (.int n))]) := by
    show (do return Yaml.Shape.map (← [(0, 1), (2, 3)].mapM (secretNamed text).entrySlot)) = _
    rw [List.mapM_cons, List.mapM_cons, hkind, hentry]
    rfl
  -- There are no merge entries to be replaced.
  have hflatten : (secretNamed text).flatten 4 = .ok (secretNamed text) := rfl
  show (do
    let g ← (secretNamed text).flatten 4
    return (g, ← g.shape 4) : Except _ _) = _
  rw [hflatten]
  show (do return (secretNamed text, ← (secretNamed text).shape 4)) = _
  rw [hshape]
  rfl

theorem sourced_secretNamed : (secretNamed text).sourced 4 = .ok
    ⟨.map [(.str "kind", .str "secret"), (.str "name", .int n)],
      .map [(.str "kind", .str "secret"), (.str "name", .str text)]⟩ := by
  have hdata : (secretNamed text).dataHeap 4 = .ok (secretNamed text,
      ⟨[(4, .map [(.str "kind", .leaf (.str "secret")), (.str "name", .leaf (.int n))])]⟩,
      .node 4) := by
    have hsearch : Yaml.Heap.ofSlot Graph.expand (secretNamed text) (.node 4)
        = .ok (secretNamed text,
          ⟨[(4, .map [(.str "kind", .leaf (.str "secret")), (.str "name", .leaf (.int n))])]⟩) := by
      show Yaml.Heap.explore Graph.expand 6 [4] [4] (secretNamed text) .empty = _
      rw [Yaml.Heap.explore, expand_secretNamed h]
      rfl
    have hslot : (secretNamed text).slot 4 = .ok (.node 4) := rfl
    rw [Graph.dataHeap, hslot]
    show (Yaml.Heap.ofSlot Graph.expand (secretNamed text) (.node 4) >>= _) = _
    rw [hsearch]
    rfl
  rw [Graph.sourced, hdata]
  rfl

end Reading

set_option maxRecDepth 20000 in
theorem read_longDigits :
    Tag.integer.read? (String.ofList longDigits) = some (.ok (.int longNumber)) := by
  have hread : (readInteger longDigits).toOption = some (.int longNumber) := by decide +kernel
  rw [Tag.read?, String.toList_ofList, Outcome.eq_ok_of_toOption hread]

/-- A number in a base that is marked by a letter starts with a zero, as no word does. -/
theorem ofPlain_of_zero {cs : List Char} (hfinal : ('0' :: cs).getLast? ≠ some '\n')
    (hfloat : isFloatForm ('0' :: cs) = false) (hinteger : isIntegerForm ('0' :: cs) = true) :
    Tag.ofPlain (String.ofList ('0' :: cs)) = .integer := by
  have hform : dropFinalBreak ('0' :: cs) = '0' :: cs := if_neg hfinal
  have hword : booleanWords.contains (String.ofList ('0' :: cs)) = false := by
    simp [booleanWords, ← String.toList_inj]
  simp only [Tag.ofPlain, String.toList_ofList, hform, hword, hfloat, hinteger, if_true,
    Bool.false_eq_true, if_false]

set_option maxRecDepth 20000 in
theorem ofPlain_longDigits : Tag.ofPlain (String.ofList longDigits) = .integer :=
  ofPlain_of_zero (by decide +kernel) (by decide +kernel) (by decide +kernel)

/-- The schema says that the name is no text, but it cannot say what it is instead. -/
theorem resolve_secretNamed_longDigits : ∃ (g : Graph) (root : NodeId) (v : SourcedValue)
    (d : Document) (fault : Fault), g.IsUntagged ∧ g.sourced root = .ok v ∧
      Document.ofValue v.data 0 v.source = .ok d ∧ defaultRegistry.resolve d = .error fault ∧
      fault.isManifestFault = false := by
  have hunreportable : Schema.secret.isReportable
      (.map [(.str "kind", .str "secret"), (.str "name", .int longNumber)]) = false := by
    decide +kernel
  exact ⟨secretNamed (String.ofList longDigits), 4, _,
    ⟨"secret", "", "", String.ofList longDigits, _, _⟩, .invalidValue,
    isUntagged_secretNamed ofPlain_longDigits, sourced_secretNamed read_longDigits, rfl,
    resolve_of_not_isReportable rfl hunreportable, rfl⟩

end LongNumber

end PipelineManifest
