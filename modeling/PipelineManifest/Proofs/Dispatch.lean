import Mathlib.Data.List.Nodup
import PipelineManifest.Proofs.Pipeline.Fields
import PipelineManifest.Proofs.Rejection
import PipelineManifest.Proofs.RoundTrip

/-!
# `PipelineManifest.Proofs.Dispatch`: which family decodes a document

Kind and type say which family owns a document. Where no document is owned by two families the order
of a registry does not matter, and the families of the default registry have different kinds. A
resource then has the kind of its document, whichever way it came by it: a pipeline takes its kind
and its type from the body, where the schema allows only one of each, and a secret takes its type
from the document.

* `Registry.IsUnambiguous`: no document is owned by two families.
* `Registry.parse_eq_of_perm`: then the order of the families does not matter.
* `Pipeline.parse_eq_family`: the pipeline of a document, by itself and through its family.
* `kind_of_resolve`: the kind and the type of a resource are those of its document.
* `decodeAll_filter_kind`: the resources of one kind come from the documents of that kind.
* `dispatch_of_perm`: all of this for the default families in any order.
-/

set_option autoImplicit false

namespace PipelineManifest

variable {ρ : Type} {d d' : Document}

/-! ### Kind and type -/

section Envelope

variable (hkind : d.kind = d'.kind) (htype : d.type = d'.type)
include hkind htype

theorem Family.owns_congr (f : Family ρ) : f.owns d = f.owns d' := by
  rw [owns, owns, hkind, htype]

theorem Registry.lookup?_congr (r : Registry ρ) : r.lookup? d = r.lookup? d' := by
  have howns : (fun f : Family ρ => f.owns d) = fun f => f.owns d' :=
    funext fun f => f.owns_congr hkind htype
  rw [lookup?, lookup?, howns]

end Envelope

theorem Family.kind_of_owns {f : Family ρ} (h : f.owns d = true) : d.kind = f.kind := by
  rw [owns, Bool.and_eq_true, decide_eq_true_iff] at h
  exact h.1

/-! ### Registries in any order -/

namespace Registry

variable {r r' : Registry ρ} {f : Family ρ}

/-- No document is owned by two families. -/
def IsUnambiguous (r : Registry ρ) : Prop :=
  ∀ f ∈ r.families, ∀ g ∈ r.families, ∀ d, f.owns d = true → g.owns d = true → f = g

/-- Families of different kinds own different documents. -/
theorem isUnambiguous_of_kinds (h : (r.families.map Family.kind).Nodup) : r.IsUnambiguous := by
  intro f hf g hg d hfd hgd
  have hkinds : f.kind = g.kind := (Family.kind_of_owns hfd).symm.trans (Family.kind_of_owns hgd)
  exact List.inj_on_of_nodup_map h hf hg hkinds

/-- The family that decodes a document is the one that owns it. -/
theorem lookup?_eq_some_iff (h : r.IsUnambiguous) :
    r.lookup? d = some f ↔ f ∈ r.families ∧ f.owns d = true := by
  constructor
  · intro hf
    exact ⟨List.mem_of_find?_eq_some hf, by simpa using List.find?_some hf⟩
  · rintro ⟨hf, howns⟩
    -- Some family is found; it owns the document as `f` does, so it is `f`.
    have hsome : (r.lookup? d).isSome = true := List.find?_isSome.mpr ⟨f, hf, howns⟩
    obtain ⟨g, hg⟩ := Option.isSome_iff_exists.mp hsome
    have hgowns : g.owns d = true := by simpa using List.find?_some hg
    rw [hg, h g (List.mem_of_find?_eq_some hg) f hf d hgowns howns]

theorem IsUnambiguous.of_perm (h : r.IsUnambiguous) (hperm : r'.families.Perm r.families) :
    r'.IsUnambiguous :=
  fun f hf g hg => h f (hperm.mem_iff.mp hf) g (hperm.mem_iff.mp hg)

section Perm

variable (h : r.IsUnambiguous) (hperm : r'.families.Perm r.families) (d : Document)
include h hperm

theorem lookup?_eq_of_perm : r'.lookup? d = r.lookup? d := by
  ext f
  rw [lookup?_eq_some_iff h, lookup?_eq_some_iff (h.of_perm hperm), hperm.mem_iff]

theorem parse_eq_of_perm : r'.parse d = r.parse d := by
  rw [parse, parse, lookup?_eq_of_perm h hperm]

theorem resolve_eq_of_perm : r'.resolve d = r.resolve d := by
  rw [resolve, resolve, parse_eq_of_perm h hperm]

end Perm

end Registry

theorem isUnambiguous_defaultRegistry : defaultRegistry.IsUnambiguous :=
  Registry.isUnambiguous_of_kinds (by decide)

/-! ### Pipelines, by themselves and through their family -/

namespace Pipeline

theorem isOwn_eq_owns (d : Document) : isOwn d = pipelineFamily.owns d := rfl

theorem parse_eq_family (d : Document) :
    (parse d).map (Option.map .pipeline) = pipelineFamily.parse d := by
  rw [parse, Family.parse, ← isOwn_eq_owns]
  cases isOwn d with
  | false => rfl
  | true =>
    show ((ofDocumentLinted d).map some).map (Option.map .pipeline)
      = ((ofDocumentLinted d).map Resource.pipeline).map some
    cases ofDocumentLinted d <;> rfl

/-- A document of the kind of pipelines belongs to their family or to none. -/
theorem parse_family_eq_registry (h : d.kind = documentKind) :
    pipelineFamily.parse d = defaultRegistry.parse d := by
  rw [Registry.parse]
  by_cases htype : d.type = documentType
  · rw [lookup?_pipeline h htype]
  · -- No other family takes this kind, so nothing is found for another type.
    have howns : pipelineFamily.owns d = false := by
      simpa [Family.owns, pipelineFamily, h] using htype
    have hnone : defaultRegistry.lookup? d = none := by
      have hsecret : documentKind ≠ Secret.documentKind := by decide
      have hsignature : documentKind ≠ Signature.documentKind := by decide
      simp [Registry.lookup?, defaultRegistry, Family.owns, secretFamily, signatureFamily,
        pipelineFamily, h, htype, hsecret, hsignature]
    rw [hnone, Family.parse, howns]
    rfl

/-- The kind and the type of a pipeline are read from the body, where the schema allows only one of
each. -/
theorem kind_of_ofDocumentLinted {p : Pipeline} (h : ofDocumentLinted d = .ok p) :
    p.kind = .str documentKind ∧ p.type = .str documentType := by
  obtain ⟨haccepts, hdecode, -⟩ := ofDocumentLinted_eq_ok_iff.mp h
  obtain ⟨es, fs, hdata, -, reads⟩ := reads_of_decode hdecode
  rw [hdata] at haccepts
  obtain ⟨-, hfield⟩ := fields_of_accepts haccepts
  refine ⟨?_, ?_⟩
  · rw [reads.kind]
    refine Value.getD_field? (P := (· = .str documentKind)) rfl fun w hw => ?_
    exact Schema.accepts_const_iff.mp (hfield "kind" [.const documentKind]
      (by simp [Schema.pipelineFields, documentKind]) w hw)
  · rw [reads.type]
    refine Value.getD_field? (P := (· = .str documentType)) rfl fun w hw => ?_
    exact Schema.accepts_const_iff.mp (hfield "type" [.const documentType]
      (by simp [Schema.pipelineFields, documentType]) w hw)

end Pipeline

/-! ### Kind and type of what is read -/

/-- The type of a secret is the type of its document. -/
theorem Secret.type_of_decode {s : Secret} (h : decode d = .ok s) : s.type = d.type := by
  obtain ⟨_, -, h⟩ := Outcome.bind_eq_ok_iff.mp h
  obtain ⟨_, -, h⟩ := Outcome.bind_eq_ok_iff.mp h
  obtain ⟨_, -, h⟩ := Outcome.bind_eq_ok_iff.mp h
  obtain ⟨_, -, h⟩ := Outcome.bind_eq_ok_iff.mp h
  obtain ⟨_, -, h⟩ := Outcome.bind_eq_ok_iff.mp h
  cases h
  rfl

/-- A resource has the kind and the type of its document; only a signature has no type. -/
theorem kind_of_resolve {x : Resource} (h : defaultRegistry.resolve d = .ok (some x)) :
    x.kind = .str d.kind ∧
      (x.type = .str d.type ∨ ∃ s, x = .signature s ∧ x.type = .str "") := by
  obtain ⟨hlookup, hdecode⟩ := family_of_resolve h
  have howns : x.family.owns d = true := by simpa using List.find?_some hlookup
  have hkind := Family.kind_of_owns howns
  cases x with
  | pipeline p =>
    cases hd : Pipeline.ofDocumentLinted d <;>
      simp [Resource.family, pipelineFamily, hd, Except.map] at hdecode
    subst hdecode
    obtain ⟨hpkind, hptype⟩ := Pipeline.kind_of_ofDocumentLinted hd
    -- The family owns one type, and the schema allows the same one in the body.
    have htype : d.type = Pipeline.documentType := by
      simpa [Family.owns, Resource.family, pipelineFamily, hkind] using howns
    rw [hkind, htype]
    exact ⟨hpkind, .inl hptype⟩
  | secret s =>
    cases hd : Secret.decode d <;> simp [Resource.family, secretFamily, hd, Except.map] at hdecode
    subst hdecode
    refine ⟨by rw [hkind]; rfl, .inl ?_⟩
    rw [Resource.type, Secret.type_of_decode hd]
  | signature s => exact ⟨by rw [hkind]; rfl, .inr ⟨s, rfl, rfl⟩⟩

/-! ### The resources of one kind -/

section OfKind

variable {r : Registry Resource}
  (hkind : ∀ d x, r.resolve d = .ok (some x) → x.kind = .str d.kind)
include hkind

theorem filter_kind_resolved (kind : String) (ds : List Document) :
    (r.resolved ds).filter (fun x => x.kind.equal (.str kind))
      = r.resolved (ds.filter fun d => d.kind = kind) := by
  induction ds with
  | nil => rfl
  | cons d ds ih =>
    cases h : r.resolve d with
    | error fault =>
      rw [Registry.resolved_cons_of_error h, ih, List.filter_cons]
      split
      · rw [Registry.resolved_cons_of_error h]
      · rfl
    | ok x? =>
      rw [Registry.resolved_cons_of_ok h, List.filter_append, ih, List.filter_cons]
      -- A resource has the kind of its document, so both are left out or neither.
      have hequal : ∀ x ∈ x?.toList, x.kind.equal (.str kind) = decide (d.kind = kind) := by
        intro x hx
        rw [Option.mem_toList] at hx
        rw [hkind d x (hx ▸ h), Bool.eq_iff_iff, Value.equal_str_iff]
        simp
      by_cases hd : d.kind = kind
      · have hall : x?.toList.filter (fun x => x.kind.equal (.str kind)) = x?.toList :=
          List.filter_eq_self.mpr fun x hx => by simp [hequal x hx, hd]
        rw [hall, if_pos (by simpa using hd), Registry.resolved_cons_of_ok h]
      · have hnone : x?.toList.filter (fun x => x.kind.equal (.str kind)) = [] :=
          List.filter_eq_nil_iff.mpr fun x hx => by simp [hequal x hx, hd]
        rw [hnone, if_neg (by simpa using hd), List.nil_append]

/-- The resources of one kind in a manifest are what the documents of that kind are read as. -/
theorem decodeAll_filter_kind {text : String} {m : Manifest}
    (h : (Manifest.parse r text).result = .ok m) :
    ∃ ds, splitText text = .ok ds ∧ ∀ kind,
      (decodeAll r (ds.filter fun d => d.kind = kind)).result = .ok (m.ofKind (.str kind)) := by
  obtain ⟨ds, hds, hall, rfl⟩ := result_parse_eq_ok_iff.mp h
  refine ⟨ds, hds, fun kind => result_decodeAll_eq_ok_iff.mpr ⟨?_, ?_⟩⟩
  · intro d hd
    exact hall d (List.mem_of_mem_filter hd)
  · exact filter_kind_resolved hkind kind ds

end OfKind

/-- The families of the default registry in any order decode the same documents to the same
resources, with the same faults. Who owns a document is said by its kind and type alone. Pipelines
are found without a registry in the same way. What is read has the kind and the type of its
document, so the resources of a kind are what the documents of that kind are read as. -/
theorem dispatch_of_perm (r : Registry Resource)
    (hperm : r.families.Perm defaultRegistry.families) :
    (∀ d, r.parse d = defaultRegistry.parse d ∧ r.resolve d = defaultRegistry.resolve d) ∧
    r.IsUnambiguous ∧
    (∀ d d' : Document, d.kind = d'.kind → d.type = d'.type →
      (∀ f ∈ r.families, f.owns d = f.owns d') ∧ r.lookup? d = r.lookup? d') ∧
    (∀ d, Pipeline.isOwn d = pipelineFamily.owns d ∧
      (Pipeline.parse d).map (Option.map .pipeline) = pipelineFamily.parse d ∧
      (d.kind = Pipeline.documentKind →
        (Pipeline.parse d).map (Option.map .pipeline) = r.parse d)) ∧
    (∀ d x, r.resolve d = .ok (some x) → x.kind = .str d.kind ∧
      (x.type = .str d.type ∨ ∃ s, x = .signature s ∧ x.type = .str "")) ∧
    (∀ text m, (Manifest.parse r text).result = .ok m →
      ∃ ds, splitText text = .ok ds ∧ ∀ kind,
        (decodeAll r (ds.filter fun d => d.kind = kind)).result = .ok (m.ofKind (.str kind))) := by
  have hdefault := isUnambiguous_defaultRegistry
  have hparse (d : Document) : r.parse d = defaultRegistry.parse d :=
    Registry.parse_eq_of_perm hdefault hperm d
  have hresolve (d : Document) : r.resolve d = defaultRegistry.resolve d :=
    Registry.resolve_eq_of_perm hdefault hperm d
  have hkind (d : Document) (x : Resource) (h : r.resolve d = .ok (some x)) :
      x.kind = .str d.kind ∧ (x.type = .str d.type ∨ ∃ s, x = .signature s ∧ x.type = .str "") := by
    rw [hresolve] at h
    exact kind_of_resolve h
  refine ⟨fun d => ⟨hparse d, hresolve d⟩, hdefault.of_perm hperm, ?_, ?_, hkind, ?_⟩
  · intro d d' hdkind hdtype
    exact ⟨fun f _ => f.owns_congr hdkind hdtype, r.lookup?_congr hdkind hdtype⟩
  · intro d
    refine ⟨Pipeline.isOwn_eq_owns d, Pipeline.parse_eq_family d, fun hpipeline => ?_⟩
    rw [Pipeline.parse_eq_family, Pipeline.parse_family_eq_registry hpipeline, hparse]
  · intro text m h
    exact decodeAll_filter_kind (fun d x hx => (hkind d x hx).1) h

/-- The default families the other way round. -/
def reversedRegistry : Registry Resource :=
  ⟨[pipelineFamily, signatureFamily, secretFamily], by decide⟩

/-- A secret between two signatures, and a document that nobody owns. -/
def dispatchText : String :=
  "kind: signature\nhmac: a\n---\nkind: secret\nname: s\ndata: d\n---\nkind: cron\n---\n"
    ++ "kind: signature\nhmac: b\n"

/-- The signatures of this text, and a document whose body says that it is something else. -/
theorem dispatch_of_perm_reversed :
    (∃ m ds, (Manifest.parse reversedRegistry dispatchText).result = .ok m ∧
      splitText dispatchText = .ok ds ∧
      (decodeAll reversedRegistry (ds.filter fun d => d.kind = "signature")).result
        = .ok (m.ofKind (.str "signature"))) ∧
    ∀ data source, reversedRegistry.parse ⟨"pipeline", "ssh", "", "", data, source⟩
      = defaultRegistry.parse ⟨"pipeline", "ssh", "", "", data, source⟩ := by
  have hperm : reversedRegistry.families.Perm defaultRegistry.families :=
    List.reverse_perm defaultRegistry.families
  obtain ⟨hparse, -, -, -, -, hofKind⟩ := dispatch_of_perm reversedRegistry hperm
  obtain ⟨m, hm⟩ : ∃ m, (Manifest.parse reversedRegistry dispatchText).result = .ok m :=
    Outcome.exists_of_isSome (by decide +kernel)
  obtain ⟨ds, hds, hkind⟩ := hofKind dispatchText m hm
  exact ⟨⟨m, ds, hm, hds, hkind "signature"⟩, fun data source => (hparse _).1⟩

end PipelineManifest
