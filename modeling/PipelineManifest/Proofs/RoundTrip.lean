import PipelineManifest.Proofs.Pipeline.WriteBack

/-!
# `PipelineManifest.Proofs.RoundTrip`: resources that are written and read back

A resource that was read from a document is written as a value, and a document of that value is
read back as a resource of the same family. A secret and a signature are read back as they were;
a pipeline is too, but for the empty variables of its server, which are not written and are absent
afterwards.

* `Resource.WellTyped`: what the decoders of a family promise of a resource.
* `Registry.resolve_eq_some_iff`: when a document is resolved to a resource.
* `Secret.decode_written`, `Signature.decode_written`: secrets and signatures.
* `Resource.resolve_written`: a written resource is read back.
* `resolve_toValue_of_resolve`: the same for every resource that was read.
-/

set_option autoImplicit false

namespace PipelineManifest

open Value (field? lookup? orEmpty)

/-! ### Resolving a document -/

/-- A document is resolved to a resource if it has a kind and a family owns it that decodes it to
this resource. -/
theorem Registry.resolve_eq_some_iff {ρ : Type} {r : Registry ρ} {d : Document} {x : ρ} :
    r.resolve d = .ok (some x)
      ↔ d.kind ≠ "" ∧ ∃ f, r.lookup? d = some f ∧ f.decode d = .ok x := by
  rw [resolve, parse]
  by_cases hkind : d.kind = ""
  · rw [if_pos hkind]
    simp [hkind]
  · rw [if_neg hkind]
    cases hf : r.lookup? d with
    | none => simp
    | some f =>
      have howns : f.owns d = true := by simpa using List.find?_some hf
      simp only [Family.parse, howns, if_true, ne_eq, hkind, not_false_eq_true, true_and,
        Option.some.injEq, exists_eq_left']
      cases f.decode d <;> simp [Except.map]

namespace Resource

/-- The family of a resource. -/
def family : Resource → Family Resource
  | pipeline _ => pipelineFamily
  | secret _ => secretFamily
  | signature _ => signatureFamily

/-- The schema of a resource. -/
def schema : Resource → Schema
  | pipeline _ => Schema.pipeline
  | secret _ => Schema.secret
  | signature _ => Schema.signature

/-- The lint rules of a resource; only pipelines have any. -/
def lint : Resource → Outcome Unit
  | pipeline p => p.lint
  | _ => .ok ()

/-- What the decoder of a family promises of a resource. -/
def WellTyped : Resource → Prop
  | pipeline p => p.WellTyped
  | secret s => s.name ≠ ""
  | signature s => s.hmac ≠ ""

/-- What a resource is read back as after it has been written. -/
def readBack : Resource → Resource
  | pipeline p => pipeline p.readBack
  | r => r

/-- A resource in which the empty variables of a server are absent. -/
def withoutEmpty : Resource → Resource
  | pipeline p => pipeline p.withoutEmpty
  | r => r

/-- The variables of the server of a resource; only pipelines have a server. -/
def serverVariables : Resource → List Variable
  | pipeline p => p.server.fields.map Prod.snd
  | _ => []

end Resource

/-- The families of the default registry decode to resources of their own. -/
theorem family_of_decode {f : Family Resource} (hf : f ∈ defaultRegistry.families) {d : Document}
    {r : Resource} (h : f.decode d = .ok r) : f = r.family := by
  have hcases : f = secretFamily ∨ f = signatureFamily ∨ f = pipelineFamily := by
    simpa [defaultRegistry] using hf
  rcases hcases with rfl | rfl | rfl
  · cases hd : Secret.decode d <;> simp [secretFamily, hd, Except.map] at h
    rw [← h]
    rfl
  · cases hd : Signature.decode d <;> simp [signatureFamily, hd, Except.map] at h
    rw [← h]
    rfl
  · cases hd : Pipeline.ofDocumentLinted d <;> simp [pipelineFamily, hd, Except.map] at h
    rw [← h]
    rfl

/-- A resource of the default registry comes from the decoder of its own family. -/
theorem family_of_resolve {d : Document} {r : Resource}
    (h : defaultRegistry.resolve d = .ok (some r)) :
    defaultRegistry.lookup? d = some r.family ∧ r.family.decode d = .ok r := by
  obtain ⟨-, f, hf, hdecode⟩ := Registry.resolve_eq_some_iff.mp h
  have heq := family_of_decode (List.mem_of_find?_eq_some hf) hdecode
  rw [← heq]
  exact ⟨hf, hdecode⟩

/-- Kind and type decide which family owns a document. -/
theorem lookup?_secret {d : Document} (h : d.kind = Secret.documentKind) :
    defaultRegistry.lookup? d = some secretFamily := by
  simp [Registry.lookup?, defaultRegistry, Family.owns, secretFamily, h]

theorem lookup?_signature {d : Document} (h : d.kind = Signature.documentKind) :
    defaultRegistry.lookup? d = some signatureFamily := by
  have hkinds : Signature.documentKind ≠ Secret.documentKind := by decide
  simp [Registry.lookup?, defaultRegistry, Family.owns, secretFamily, signatureFamily, h, hkinds]

theorem lookup?_pipeline {d : Document} (hkind : d.kind = Pipeline.documentKind)
    (htype : d.type = Pipeline.documentType) :
    defaultRegistry.lookup? d = some pipelineFamily := by
  have hsecret : Pipeline.documentKind ≠ Secret.documentKind := by decide
  have hsignature : Pipeline.documentKind ≠ Signature.documentKind := by decide
  simp [Registry.lookup?, defaultRegistry, Family.owns, secretFamily, signatureFamily,
    pipelineFamily, hkind, htype, hsecret, hsignature]

/-- What the default registry does with a document, family by family. -/
theorem resolve_defaultRegistry (d : Document) :
    defaultRegistry.resolve d
      = if d.kind = "" then .error (.malformedOne "missing resource kind")
        else if d.kind = Secret.documentKind then (Secret.decode d).map fun s => some (.secret s)
        else if d.kind = Signature.documentKind then
          (Signature.decode d).map fun s => some (.signature s)
        else if Pipeline.isOwn d then (Pipeline.ofDocumentLinted d).map fun p => some (.pipeline p)
        else .ok none := by
  rw [Registry.resolve]
  by_cases hempty : d.kind = ""
  · rw [if_pos hempty, if_pos hempty]
  rw [if_neg hempty, if_neg hempty, Registry.parse]
  by_cases hsecret : d.kind = Secret.documentKind
  · rw [if_pos hsecret, lookup?_secret hsecret]
    simp only [Family.parse, Family.owns, secretFamily, hsecret]
    cases Secret.decode d <;> rfl
  rw [if_neg hsecret]
  by_cases hsignature : d.kind = Signature.documentKind
  · rw [if_pos hsignature, lookup?_signature hsignature]
    simp only [Family.parse, Family.owns, signatureFamily, hsignature]
    cases Signature.decode d <;> rfl
  rw [if_neg hsignature]
  by_cases hpipeline : d.kind = Pipeline.documentKind ∧ d.type = Pipeline.documentType
  · rw [if_pos (by simpa [Pipeline.isOwn] using hpipeline),
      lookup?_pipeline hpipeline.1 hpipeline.2]
    simp only [Family.parse, Family.owns, pipelineFamily, hpipeline]
    cases Pipeline.ofDocumentLinted d <;> rfl
  · -- No family is left that could own the document.
    have hnone : defaultRegistry.lookup? d = none := by
      rw [not_and] at hpipeline
      simp [Registry.lookup?, defaultRegistry, Family.owns, secretFamily, signatureFamily,
        pipelineFamily, hsecret, hsignature]
      exact hpipeline
    rw [if_neg (by simpa [Pipeline.isOwn] using hpipeline), hnone]

/-! ### What the decoders promise -/

/-- A pipeline that was read keeps the schema and the lint rules, and its fields hold values of the
right kinds. -/
theorem Pipeline.of_ofDocumentLinted {d : Document} {p : Pipeline}
    (hwf : d.data.isWellFormed = true) (hsource : d.source = d.data)
    (h : ofDocumentLinted d = .ok p) : p.WellTyped ∧ p.lint = .ok () := by
  obtain ⟨haccepts, hdecode, hlint⟩ := ofDocumentLinted_eq_ok_iff.mp h
  obtain ⟨p', hp', hwt⟩ := decode_of_accepts hwf haccepts
  obtain ⟨es, hes, -⟩ := Schema.accepts_requiredObject_iff.mp haccepts
  -- Without a source of its own the document is its own source.
  have hself : decode d.data (if d.source.isTruthy then d.source else d.data)
      = decode d.data .null := by
    rw [hsource, ite_self, hes]
    rfl
  rw [hself, hp', Value.whenWritable_eq_ok_iff] at hdecode
  obtain ⟨hwritable, rfl⟩ := hdecode
  exact ⟨hwt hwritable, hlint⟩

theorem Secret.name_ne_empty_of_decode {d : Document} {s : Secret} (h : decode d = .ok s) :
    s.name ≠ "" := by
  obtain ⟨_, hcheck, _⟩ := Outcome.bind_eq_ok_iff.mp h
  obtain ⟨t, ht, hne⟩ := decode_of_accepts ((Schema.check_eq_ok_iff _ _ _).mp hcheck)
  rw [h] at ht
  cases ht
  exact hne

theorem Signature.hmac_ne_empty_of_decode {d : Document} {s : Signature} (h : decode d = .ok s) :
    s.hmac ≠ "" := by
  obtain ⟨_, hcheck, _⟩ := Outcome.bind_eq_ok_iff.mp h
  obtain ⟨t, ht, hne⟩ := decode_of_accepts ((Schema.check_eq_ok_iff _ _ _).mp hcheck)
  rw [h] at ht
  cases ht
  exact hne

theorem Resource.wellTyped_of_decode {d : Document} {r : Resource}
    (hwf : d.data.isWellFormed = true) (hsource : d.source = d.data)
    (h : r.family.decode d = .ok r) : r.WellTyped ∧ r.lint = .ok () := by
  cases r with
  | pipeline p =>
    cases hd : Pipeline.ofDocumentLinted d <;> simp [family, pipelineFamily, hd, Except.map] at h
    subst h
    exact Pipeline.of_ofDocumentLinted hwf hsource hd
  | secret s =>
    cases hd : Secret.decode d <;> simp [family, secretFamily, hd, Except.map] at h
    subst h
    exact ⟨Secret.name_ne_empty_of_decode hd, rfl⟩
  | signature s =>
    cases hd : Signature.decode d <;> simp [family, signatureFamily, hd, Except.map] at h
    subst h
    exact ⟨Signature.hmac_ne_empty_of_decode hd, rfl⟩

/-! ### Texts that are written if they are not empty -/

namespace Value

/-- What is found in an entry that is written under a condition. -/
theorem lookup?_unless (name s : String) (p : Prop) [Decidable p] (v : Value) :
    lookup? (.str name) (if p then [(.str s, v)] else [])
      = if s = name ∧ p then some v else none := by
  by_cases hp : p
  · simp [hp]
  · simp [hp]

theorem areTreeEntries_unless {v : Value} (hv : v.isTree = true) (name : String) (p : Prop)
    [Decidable p] : areTreeEntries (if p then [(.str name, v)] else []) = true := by
  split
  · simp [areTreeEntries, isTree, hv]
  · rfl

end Value

/-- A text that is left out where it is empty. -/
def textUnless (text : String) : Option Value := if text ≠ "" then some (.str text) else none

theorem label_textUnless (text field place : String) :
    Document.label (textUnless text) field place = .ok text := by
  by_cases h : text = ""
  · subst h
    rfl
  · simp [textUnless, h, Document.label]

@[simp] theorem caption_str (text : String) : Document.caption (some (.str text)) = .ok text := rfl

theorem caption_textUnless (text : String) : Document.caption (textUnless text) = .ok text := by
  by_cases h : text = ""
  · subst h
    rfl
  · rw [textUnless, if_pos h, caption_str]

theorem textField_of_field? {es : List (Value × Value)} {name text : String}
    (h : field? name es = textUnless text) : textField (.map es) name "" = .ok text := by
  rw [textField, Value.get_map, Outcome.ok_bind, h]
  by_cases htext : text = ""
  · subst htext
    rfl
  · simp [textUnless, htext]

theorem accepts_string_of_textUnless {o : Option Value} {text : String} (h : o = textUnless text) :
    ∀ w, o = some w → Schema.string.accepts w = true := by
  intro w hw
  rw [h, textUnless, Option.ite_none_right_eq_some, Option.some.injEq] at hw
  exact Schema.accepts_string_iff.mpr ⟨text, hw.2.symm⟩

/-! ### Secrets -/

namespace Secret

theorem textEntries_cons (name text : String) (l : List (String × String)) :
    textEntries ((name, text) :: l)
      = (if text ≠ "" then [(.str name, .str text)] else []) ++ textEntries l := by
  rw [textEntries, textEntries, List.filter_cons]
  by_cases h : text = "" <;> simp [h]

theorem textEntries_nil : textEntries [] = [] := rfl

/-- The entries of a written location. -/
def locationEntries (l : SecretLocation) : List (Value × Value) :=
  textEntries [("path", l.path), ("name", l.name), ("key", l.key)]

/-- The entries of a written secret. -/
def entries (s : Secret) : List (Value × Value) :=
  [(.str "kind", .str documentKind)]
    ++ textEntries [("version", s.version), ("type", s.type)]
    ++ [(.str "name", .str s.name)]
    ++ textEntries [("data", s.data)]
    ++ (if (Value.map (locationEntries s.location)).isTruthy
        then [(.str "get", .map (locationEntries s.location))] else [])

theorem toValue_eq (s : Secret) : s.toValue = .map s.entries := by
  rw [toValue, entries, ← locationEntries]
  cases locationEntries s.location <;> rfl

theorem areTreeEntries_textEntries (l : List (String × String)) :
    Value.areTreeEntries (textEntries l) = true := by
  induction l with
  | nil => rfl
  | cons x l ih =>
    rw [textEntries_cons, Value.areTreeEntries_append, ih, Value.areTreeEntries_unless rfl]
    rfl

theorem isTree_entries (s : Secret) : (Value.map s.entries).isTree = true := by
  have hlocation : (Value.map (locationEntries s.location)).isTree = true :=
    areTreeEntries_textEntries _
  simp only [entries, Value.isTree, Value.areTreeEntries_append, areTreeEntries_textEntries,
    Value.areTreeEntries_unless hlocation, Value.areTreeEntries, Bool.and_self]

/-- What is found of the fields of a written secret. -/
theorem field?_entries (s : Secret) :
    field? "kind" s.entries = some (.str documentKind) ∧
    field? "version" s.entries = textUnless s.version ∧
    field? "type" s.entries = textUnless s.type ∧
    field? "name" s.entries = some (.str s.name) ∧
    field? "data" s.entries = textUnless s.data ∧
    field? "get" s.entries
      = if (Value.map (locationEntries s.location)).isTruthy
        then some (.map (locationEntries s.location)) else none := by
  simp only [Value.field?_of_isTree s.isTree_entries]
  simp only [entries, textEntries_cons, textEntries_nil,
    Value.lookup?_append, Value.lookup?_unless, Value.lookup?_str_cons, Value.lookup?_nil,
    textUnless]
  simp

theorem field?_locationEntries (l : SecretLocation) :
    field? "path" (locationEntries l) = textUnless l.path ∧
    field? "name" (locationEntries l) = textUnless l.name ∧
    field? "key" (locationEntries l) = textUnless l.key := by
  have htree : (Value.map (locationEntries l)).isTree = true := areTreeEntries_textEntries _
  simp only [Value.field?_of_isTree htree]
  simp only [locationEntries, textEntries_cons, textEntries_nil,
    Value.lookup?_append, Value.lookup?_unless, Value.lookup?_nil, textUnless]
  simp

theorem decodeLocation_given (l : SecretLocation) :
    decodeLocation (if (Value.map (locationEntries l)).isTruthy
      then some (.map (locationEntries l)) else none) = .ok l := by
  obtain ⟨hpath, hname, hkey⟩ := field?_locationEntries l
  rw [decodeLocation, Value.orEmpty_given]
  simp only [textField_of_field? hpath, textField_of_field? hname, textField_of_field? hkey,
    Outcome.ok_bind, Outcome.pure_eq_ok]

theorem accepts_location (l : SecretLocation) :
    Schema.accepts [.type [.object], .properties locationSchemas] (.map (locationEntries l))
      = true := by
  obtain ⟨hpath, hname, hkey⟩ := field?_locationEntries l
  refine Schema.accepts_object_iff.mpr ⟨_, rfl, fun f hf => ?_⟩
  simp only [locationSchemas, List.mem_cons, List.not_mem_nil, or_false] at hf
  rcases hf with rfl | rfl | rfl
  · exact accepts_string_of_textUnless hpath
  · exact accepts_string_of_textUnless hname
  · exact accepts_string_of_textUnless hkey

/-- The schema accepts what a secret is written as. -/
theorem accepts_written {s : Secret} (h : s.name ≠ "") :
    Schema.secret.accepts (.map s.entries) = true := by
  obtain ⟨hkind, hversion, htype, hname, hdata, hget⟩ := s.field?_entries
  refine Schema.accepts_requiredObject_iff.mpr ⟨_, rfl, ?_, fun f hf w hw => ?_⟩
  · intro name hmem
    rw [List.mem_singleton.mp hmem]
    exact ⟨_, hname⟩
  · simp only [List.mem_cons, List.not_mem_nil, or_false] at hf
    rcases hf with rfl | rfl | rfl | rfl | rfl | rfl
    · rw [hkind] at hw
      cases hw
      exact Schema.accepts_const_iff.mpr rfl
    · exact accepts_string_of_textUnless htype w hw
    · obtain ⟨text, htext⟩ :=
        Schema.accepts_string_iff.mp (accepts_string_of_textUnless hversion w hw)
      exact Schema.accepts_version_iff.mpr (.inl ⟨text, htext⟩)
    · rw [hname] at hw
      cases hw
      exact Schema.accepts_nonEmptyString_iff.mpr ⟨s.name, rfl, h⟩
    · exact accepts_string_of_textUnless hdata w hw
    · rw [hget, Option.ite_none_right_eq_some, Option.some.injEq] at hw
      rw [← hw.2]
      exact accepts_location s.location

/-- The document of a written secret. -/
def writtenDocument (s : Secret) : Document :=
  ⟨documentKind, s.type, s.version, s.name, .map s.entries, .map s.entries⟩

theorem ofValue_written (s : Secret) (index : Nat) :
    Document.ofValue (.map s.entries) index .null = .ok s.writtenDocument := by
  obtain ⟨hkind, hversion, htype, hname, -, -⟩ := s.field?_entries
  simp only [Document.ofValue, Value.orData_null, Value.get_map, Outcome.ok_bind, hkind, hversion,
    htype, hname, label_textUnless, caption_textUnless, caption_str]
  rfl

/-- What a secret is written as is read back as the same secret. -/
theorem decode_written {s : Secret} (h : s.name ≠ "") : decode s.writtenDocument = .ok s := by
  obtain ⟨-, -, -, hname, hdata, hget⟩ := s.field?_entries
  have hcheck := (Schema.check_eq_ok_iff _ _ ("secret " ++ Text.quoted s.name)).mpr
    (accepts_written h)
  have hnameField : textField (.map s.entries) "name" "" = .ok s.name := by
    rw [textField, Value.get_map, hname]
    rfl
  simp only [decode, writtenDocument, hcheck, Outcome.ok_bind, Value.get_map, hget,
    decodeLocation_given, hnameField, textField_of_field? hdata, Outcome.pure_eq_ok]

end Secret

/-! ### Signatures -/

namespace Signature

/-- The entries of a written signature. -/
def entries (s : Signature) : List (Value × Value) :=
  [(.str "kind", .str documentKind), (.str "hmac", .str s.hmac)]

theorem toValue_eq (s : Signature) : s.toValue = .map s.entries := rfl

theorem field?_entries (s : Signature) :
    field? "kind" s.entries = some (.str documentKind) ∧
    (∀ name ∈ ["type", "version", "name"], field? name s.entries = none) ∧
    field? "hmac" s.entries = some (.str s.hmac) := by
  have htree : (Value.map s.entries).isTree = true := rfl
  simp only [Value.field?_of_isTree htree]
  simp [entries]

/-- The schema accepts what a signature is written as. -/
theorem accepts_written {s : Signature} (h : s.hmac ≠ "") :
    Schema.signature.accepts (.map s.entries) = true := by
  obtain ⟨hkind, -, hhmac⟩ := s.field?_entries
  refine Schema.accepts_requiredObject_iff.mpr ⟨_, rfl, ?_, fun f hf w hw => ?_⟩
  · intro name hmem
    rw [List.mem_singleton.mp hmem]
    exact ⟨_, hhmac⟩
  · simp only [List.mem_cons, List.not_mem_nil, or_false] at hf
    rcases hf with rfl | rfl
    · rw [hkind] at hw
      cases hw
      exact Schema.accepts_const_iff.mpr rfl
    · rw [hhmac] at hw
      cases hw
      exact Schema.accepts_nonEmptyString_iff.mpr ⟨s.hmac, rfl, h⟩

theorem ofValue_written (s : Signature) (index : Nat) :
    ∃ d, Document.ofValue (.map s.entries) index .null = .ok d ∧
      d.kind = documentKind ∧ d.data = .map s.entries := by
  obtain ⟨hkind, hnone, -⟩ := s.field?_entries
  simp only [Document.ofValue, Value.orData_null, Value.get_map, Outcome.ok_bind, hkind,
    hnone "type" (by simp), hnone "version" (by simp), hnone "name" (by simp), Document.label,
    Document.caption, Outcome.pure_eq_ok]
  exact ⟨_, rfl, rfl, rfl⟩

/-- What a signature is written as is read back as the same signature. -/
theorem decode_written {s : Signature} (h : s.hmac ≠ "") {d : Document}
    (hd : d.data = .map s.entries) : decode d = .ok s := by
  obtain ⟨-, -, hhmac⟩ := s.field?_entries
  have hcheck := (Schema.check_eq_ok_iff _ _ "signature").mpr (accepts_written h)
  have hfield : textField (.map s.entries) "hmac" "" = .ok s.hmac := by
    rw [textField, Value.get_map, hhmac]
    rfl
  simp only [decode, hd, hcheck, Outcome.ok_bind, hfield, Outcome.pure_eq_ok]

end Signature

/-! ### Pipelines -/

namespace Pipeline

theorem ofValue_written {p : Pipeline} (h : p.WellTyped) (index : Nat) :
    ∃ d, Document.ofValue (.map p.entries) index .null = .ok d ∧
      d.kind = documentKind ∧ d.type = documentType ∧
      d.data = .map p.entries ∧ d.source = .map p.entries := by
  have hkind : field? "kind" p.entries = some p.kind := field?_always h (by simp)
  have htype : field? "type" p.entries = some p.type := field?_always h (by simp)
  obtain ⟨version, hversion⟩ := h.version
  have hcaption : Document.caption (field? "version" p.entries) = .ok version := by
    rw [field?_entries h (v := p.version) (by simp [fields]), hversion]
    by_cases hempty : version = ""
    · subst hempty
      rfl
    · rw [if_pos (by simp [Value.isTruthy, hempty]), caption_str]
  obtain ⟨name, hname, -⟩ := h.name
  have hname' : field? "name" p.entries = some (.str name) := hname ▸ field?_always h (by simp)
  simp only [Document.ofValue, Value.orData_null, Value.get_map, Outcome.ok_bind, hkind, htype,
    h.kind, h.type, Document.label, hcaption, hname', caption_str, Outcome.pure_eq_ok]
  exact ⟨_, rfl, rfl, rfl, rfl, rfl⟩

/-- What a pipeline is written as is read back as `readBack`, if it keeps the lint rules. -/
theorem ofDocumentLinted_written {p : Pipeline} (h : p.WellTyped) (hlint : p.lint = .ok ())
    {d : Document} (hdata : d.data = .map p.entries) (hsource : d.source = .map p.entries) :
    ofDocumentLinted d = .ok p.readBack := by
  -- Without a source of its own the document is its own source.
  have hself : decode (.map p.entries) (.map p.entries) = decode (.map p.entries) .null := rfl
  refine ofDocumentLinted_eq_ok_iff.mpr ⟨hdata ▸ accepts_written h, ?_, ?_⟩
  · rw [hdata, hsource, ite_self, hself]
    exact decode_written h
  · rw [lint_readBack]
    exact hlint

end Pipeline

/-! ### All families -/

namespace Resource

/-- A resource is written as a value that its schema accepts and that is read back, by the same
family. -/
theorem resolve_written {r : Resource} (h : r.WellTyped) (hlint : r.lint = .ok ()) (index : Nat) :
    ∃ v d, r.toValue = .ok v ∧ Document.ofValue v index .null = .ok d ∧
      r.schema.accepts v = true ∧ defaultRegistry.lookup? d = some r.family ∧
      defaultRegistry.resolve d = .ok (some r.readBack) := by
  cases r with
  | pipeline p =>
    obtain ⟨d, hd, hkind, htype, hdata, hsource⟩ := Pipeline.ofValue_written h index
    have hlookup := lookup?_pipeline hkind htype
    have hdecode := Pipeline.ofDocumentLinted_written h hlint hdata hsource
    refine ⟨.map p.entries, d, Pipeline.toValue_eq h, hd, Pipeline.accepts_written h, hlookup, ?_⟩
    refine Registry.resolve_eq_some_iff.mpr ⟨?_, pipelineFamily, hlookup, ?_⟩
    · rw [hkind]
      decide
    · rw [pipelineFamily]
      simp only [hdecode]
      rfl
  | secret s =>
    have hlookup : defaultRegistry.lookup? s.writtenDocument = some secretFamily :=
      lookup?_secret rfl
    refine ⟨.map s.entries, s.writtenDocument, ?_, s.ofValue_written index,
      Secret.accepts_written h, hlookup, ?_⟩
    · rw [toValue, Secret.toValue_eq]
    · refine Registry.resolve_eq_some_iff.mpr ⟨?_, secretFamily, hlookup, ?_⟩
      · have hkind : Secret.documentKind ≠ "" := by decide
        exact hkind
      · rw [secretFamily]
        simp only [Secret.decode_written h]
        rfl
  | signature s =>
    obtain ⟨d, hd, hkind, hdata⟩ := s.ofValue_written index
    have hlookup := lookup?_signature hkind
    refine ⟨.map s.entries, d, rfl, hd, Signature.accepts_written h, hlookup, ?_⟩
    refine Registry.resolve_eq_some_iff.mpr ⟨?_, signatureFamily, hlookup, ?_⟩
    · rw [hkind]
      decide
    · rw [signatureFamily]
      simp only [Signature.decode_written h hdata]
      rfl

theorem schema_readBack (r : Resource) : r.readBack.schema = r.schema := by
  cases r <;> rfl

theorem lint_readBack (r : Resource) : r.readBack.lint = r.lint := by
  cases r with
  | pipeline p => exact p.lint_readBack
  | _ => rfl

theorem toValue_readBack {r : Resource} (h : r.WellTyped) : r.readBack.toValue = r.toValue := by
  cases r with
  | pipeline p => exact Pipeline.toValue_readBack h
  | _ => rfl

theorem readBack_equal_withoutEmpty {r : Resource} (h : r.WellTyped) :
    r.readBack.equal r.withoutEmpty = true := by
  cases r with
  | pipeline p => exact Pipeline.readBack_equal_withoutEmpty h
  | secret s => exact decide_eq_true_iff.mpr rfl
  | signature s => exact decide_eq_true_iff.mpr rfl

theorem readBack_equal_iff {r : Resource} (h : r.WellTyped) :
    r.readBack.equal r = true
      ↔ ∀ x ∈ r.serverVariables, x ≠ .literal "" ∧ x ≠ .secret "" := by
  cases r with
  | pipeline p =>
    rw [serverVariables, List.forall_mem_map]
    exact Pipeline.readBack_equal_iff h
  | secret s => simp [serverVariables, readBack, equal]
  | signature s => simp [serverVariables, readBack, equal]

end Resource

theorem Document.ofValue_parts {data source : Value} {index : Nat} {d : Document}
    (h : ofValue data index source = .ok d) : d.data = data ∧ d.source = source.orData data := by
  obtain ⟨_, -, h⟩ := Outcome.bind_eq_ok_iff.mp h
  obtain ⟨_, -, h⟩ := Outcome.bind_eq_ok_iff.mp h
  obtain ⟨_, -, h⟩ := Outcome.bind_eq_ok_iff.mp h
  obtain ⟨_, -, h⟩ := Outcome.bind_eq_ok_iff.mp h
  obtain ⟨_, -, h⟩ := Outcome.bind_eq_ok_iff.mp h
  obtain ⟨_, -, h⟩ := Outcome.bind_eq_ok_iff.mp h
  obtain ⟨_, -, h⟩ := Outcome.bind_eq_ok_iff.mp h
  obtain ⟨_, -, h⟩ := Outcome.bind_eq_ok_iff.mp h
  cases h
  exact ⟨rfl, rfl⟩

/-- A resource that was read from a document is written as a value, and a document of this value is
read back, by the same family, as a resource that is equal to the first one but for the empty
variables of a server. It is written like the first one. -/
theorem resolve_toValue_of_resolve {data : Value} {index : Nat} {d : Document} {r : Resource}
    (hwf : data.isWellFormed = true) (hd : Document.ofValue data index .null = .ok d)
    (hr : defaultRegistry.resolve d = .ok (some r)) (index' : Nat) :
    ∃ v d' r', r.toValue = .ok v ∧ Document.ofValue v index' .null = .ok d' ∧
      defaultRegistry.lookup? d' = defaultRegistry.lookup? d ∧
      Schema.report r'.schema v = [] ∧ r'.lint = .ok () ∧
      defaultRegistry.resolve d' = .ok (some r') ∧
      r'.equal r.withoutEmpty = true ∧
      (r'.equal r = true ↔ ∀ x ∈ r.serverVariables, x ≠ .literal "" ∧ x ≠ .secret "") ∧
      r'.toValue = .ok v := by
  obtain ⟨hlookup, hdecode⟩ := family_of_resolve hr
  obtain ⟨hdata, hsource⟩ := Document.ofValue_parts hd
  obtain ⟨hwt, hlint⟩ := Resource.wellTyped_of_decode (by rw [hdata]; exact hwf)
    (hsource.trans hdata.symm) hdecode
  obtain ⟨v, d', hv, hd', haccepts, hlookup', hresolve⟩ := Resource.resolve_written hwt hlint index'
  refine ⟨v, d', r.readBack, hv, hd', hlookup'.trans hlookup.symm, ?_, ?_, hresolve,
    Resource.readBack_equal_withoutEmpty hwt, Resource.readBack_equal_iff hwt, ?_⟩
  · rw [Resource.schema_readBack]
    exact (Schema.report_eq_nil_iff _ _).mpr haccepts
  · rw [Resource.lint_readBack]
    exact hlint
  · rw [Resource.toValue_readBack hwt]
    exact hv

/-- A pipeline with an empty password, a depth of zero that is held as a floating-point number,
and a step without a shell. -/
def spareData : Value := .map [
  (.str "kind", .str "pipeline"), (.str "type", .str "ssh"), (.str "name", .str "build"),
  (.str "server", .map [
    (.str "host", .str "h"), (.str "user", .str "u"), (.str "password", .str ""),
    (.str "ssh_key", .map [(.str "from_secret", .str "key")])]),
  (.str "clone", .map [(.str "depth", .float (.finite false 0 0))]),
  (.str "steps", .seq [.map [(.str "name", .str "test"), (.str "commands", .seq [.str "make"])]])]

/-- Its document. -/
def spareDocument : Document := ⟨"pipeline", "ssh", "", "build", spareData, spareData⟩

/-- The pipeline that it describes. -/
def sparePipeline : Pipeline where
  name := .str "build"
  server := {
    host := .literal "h", user := .literal "u", password := .literal "", sshKey := .secret "key" }
  clone := { depth := .float (.finite false 0 0) }
  steps := [{ name := .str "test", shell := .str "/bin/sh", commands := .seq [.str "make"] }]

theorem resolve_spareDocument :
    defaultRegistry.resolve spareDocument = .ok (some (.pipeline sparePipeline)) := by
  have hcheck : Schema.pipeline.check spareDocument.data
      ("pipeline " ++ Text.quoted spareDocument.name) = .ok () :=
    (Schema.check_eq_ok_iff _ _ _).mpr (by decide +kernel)
  have hdecode : Pipeline.decode spareDocument.data
      (if spareDocument.source.isTruthy then spareDocument.source else spareDocument.data)
        = .ok sparePipeline := rfl
  have hlint : sparePipeline.lint = .ok () := rfl
  have hown : Pipeline.ofDocumentLinted spareDocument = .ok sparePipeline := by
    rw [Pipeline.ofDocumentLinted, Pipeline.ofDocument, hcheck, Outcome.ok_bind, hdecode,
      Outcome.ok_bind, hlint]
    rfl
  refine Registry.resolve_eq_some_iff.mpr ⟨by decide, pipelineFamily, lookup?_pipeline rfl rfl, ?_⟩
  show Except.map Resource.pipeline (Pipeline.ofDocumentLinted spareDocument) = _
  rw [hown]
  rfl

theorem resolve_toValue_of_resolve_spare :
    ∃ v d' r', sparePipeline.toValue = .ok v ∧ Document.ofValue v 0 .null = .ok d' ∧
      defaultRegistry.lookup? d' = defaultRegistry.lookup? spareDocument ∧
      Schema.report r'.schema v = [] ∧ r'.lint = .ok () ∧
      defaultRegistry.resolve d' = .ok (some r') ∧
      r'.equal (Resource.pipeline sparePipeline).withoutEmpty = true ∧
      (r'.equal (.pipeline sparePipeline) = true
        ↔ ∀ x ∈ (Resource.pipeline sparePipeline).serverVariables,
          x ≠ .literal "" ∧ x ≠ .secret "") ∧
      r'.toValue = .ok v :=
  resolve_toValue_of_resolve (by decide) (rfl : Document.ofValue spareData 0 .null = _)
    resolve_spareDocument 0

end PipelineManifest
