import PipelineManifest.Proofs.Pipeline.Step
import PipelineManifest.Resource

/-!
# `PipelineManifest.Proofs.Pipeline.Decode`: the schemas are strict enough for the decoders

The decoders read documents without a check of their shape, and fail in many ways on a document of a
wrong shape. Of a document that its schema accepts nothing can fail but one thing: a scalar that
becomes a text can be a whole number that is too long to be written. Otherwise the document is
decoded, and every field of the result holds a value of the right kind.

* `Pipeline.WellTyped`: the kinds of values that the fields of a pipeline hold.
* `Pipeline.spelled`: the scalars of a document that become texts.
* `Pipeline.completed`, `Pipeline.exists_draft_of_accepts`: an accepted pipeline, but for the fields
  that are read from the source.
* `Pipeline.decode_of_accepts`, `Secret.decode_of_accepts`, `Signature.decode_of_accepts`: accepted
  documents are decoded.
* `Pipeline.ofDocumentLinted_eq_ok_iff`: when a document is read as a pipeline.
* `decode_of_report_eq_nil`: the same for all three, where no violation is reported.
-/

set_option autoImplicit false

namespace PipelineManifest

open Value (areWritable field? orEmpty whenWritable)

/-- Steps that name no shell have one all the same. -/
theorem defaultShell_ne_empty (os : Value) : defaultShell os ≠ "" := by
  rw [defaultShell]
  split <;> decide

namespace Value

@[simp] theorem orData_null (data : Value) : null.orData data = data := rfl

/-- An item of a sequence is read by its position. -/
theorem element_seq {vs : List Value} {i : Nat} {v : Value} (h : (items vs)[i]? = some v) :
    (seq vs).element i = .ok v := by
  simp [element, elements, h]

end Value

/-- The first of the items that are left stands at the position, and the others are left next. -/
theorem getElem?_of_drop_eq_cons {α : Type} {xs rest : List α} {x : α} {index : Nat}
    (h : xs.drop index = x :: rest) : xs[index]? = some x ∧ xs.drop (index + 1) = rest := by
  constructor
  · rw [← List.head?_drop, h, List.head?_cons]
  · rw [← List.tail_drop, h, List.tail_cons]

namespace Pipeline

/-- A pipeline whose fields hold values of the right kinds. Its server, its trigger, and the
variables, policies and conditions of its steps do by their types. -/
structure WellTyped (p : Pipeline) : Prop where
  kind : p.kind = .str documentKind
  type : p.type = .str documentType
  name : ∃ text, p.name = .str text ∧ text ≠ ""
  version : p.version.IsText
  dependsOn : p.dependsOn.IsTexts
  node : ∃ es, p.node = .map es ∧ ∀ e ∈ es, e.1.isScalar = true ∧ e.2.IsText
  workspace : p.workspace.WellTyped
  platform : p.platform.WellTyped
  clone : p.clone.WellTyped
  steps : ∀ s ∈ p.steps, s.WellTyped

/-! ### What becomes a text -/

/-- The scalars of a node selector that become texts. -/
def spelledNode (section? : Option Value) : List Value :=
  match orEmpty section? with
  | .map es => (Value.entries es).map Prod.snd
  | _ => []

/-- The scalars of a list of steps that become texts. -/
def spelledSteps : Option Value → List Value
  | some (.seq vs) => (Value.items vs).flatMap Step.spelled
  | _ => []

/-- The scalars of a document that become texts, in the order in which they are read. -/
def spelled : Value → List Value
  | .map es =>
    Platform.spelled (field? "platform" es) ++ ((field? "version" es).toList
      ++ (spelledNode (field? "node" es) ++ (Server.spelled (field? "server" es)
        ++ spelledSteps (field? "steps" es))))
  | _ => []

/-! ### Accepted pipelines -/

/-- An accepted pipeline has its required fields, and its fields keep their schemas. -/
theorem fields_of_accepts {es : List (Value × Value)}
    (h : Schema.pipeline.accepts (.map es) = true) :
    (∀ name ∈ ["kind", "type", "name"], ∃ w, field? name es = some w) ∧
    ∀ name schema, (name, schema) ∈ Schema.pipelineFields → ∀ w, field? name es = some w →
      Schema.accepts schema w = true := by
  obtain ⟨_, ⟨⟩, hrequired, hfields⟩ := Schema.accepts_requiredObject_iff.mp h
  exact ⟨hrequired, fun _ _ hf => hfields _ hf⟩

theorem decodeVersion_of_version {v : Value} (h : Schema.version.accepts v = true) :
    decodeVersion (some v) = whenWritable [v] (.str v.scalarText) := by
  have hscalar : decodeVersion (some v) = (do return .str (← v.toScalarText)) := by
    rcases Schema.accepts_version_iff.mp h with ⟨s, rfl⟩ | ⟨i, rfl⟩ | ⟨x, rfl⟩ <;> rfl
  rw [hscalar, Value.toScalarText_eq]
  exact Value.whenWritable_map Value.str

theorem decodeVersion_of_accepts {v : Option Value}
    (h : ∀ w, v = some w → Schema.version.accepts w = true) :
    ∃ text, decodeVersion v = whenWritable v.toList text ∧ text.IsText := by
  cases v with
  | none => exact ⟨.str "", rfl, "", rfl⟩
  | some w => exact ⟨_, decodeVersion_of_version (h w rfl), _, rfl⟩

theorem decodeNode_of_accepts {section? : Option Value}
    (hwf : ∀ v, section? = some v → v.isWellFormed = true)
    (h : ∀ v, section? = some v →
      Schema.accepts [.type [.object], .others [] [.type [.string, .number, .boolean]]] v = true) :
    ∃ es, decodeNode section? = whenWritable (spelledNode section?) (.map es) ∧
      ∀ e ∈ es, e.1.isScalar = true ∧ e.2.IsText := by
  cases section? with
  | none => exact ⟨[], rfl, by simp⟩
  | some v =>
    obtain ⟨es, rfl, -⟩ := Schema.accepts_allOf_iff.mp (h v rfl)
    have hentry : ∀ e ∈ Value.entries es, ∃ f : Value × Value,
        (do return (e.1, .str (← e.2.toScalarText)) : Outcome (Value × Value))
          = whenWritable [e.2] f ∧ f.1 = e.1 ∧ f.2.IsText := by
      intro e _
      rw [Value.toScalarText_eq]
      exact ⟨_, Value.whenWritable_map fun text => (e.1, Value.str text), rfl, _, rfl⟩
    obtain ⟨fs, hfs, hkeys⟩ := Value.exists_mapM_whenWritable hentry
    refine ⟨fs, ?_, fun f hf => ?_⟩
    · have hspelled : spelledNode (some (.map es)) = (Value.entries es).flatMap fun e => [e.2] := by
        rw [spelledNode, Value.orEmpty_map]
        exact List.map_eq_flatMap
      rw [hspelled, decodeNode, Value.orEmpty_map, Value.fields_map, Outcome.ok_bind, hfs]
      exact Value.whenWritable_map Value.map
    · obtain ⟨e, he, hkey, htext⟩ := hkeys f hf
      rw [hkey]
      exact ⟨(Value.isWellFormed_of_mem_entries (hwf _ rfl) he).1, htext⟩

/-- The steps of a list are decoded one after the other, each with itself as its source. -/
theorem decodeSteps_of_accepts {shell : String} (hshell : shell ≠ "") {vs : List Value}
    (h : ∀ v ∈ Value.items vs, v.isWellFormed = true ∧ Schema.step.accepts v = true)
    (rest : List Value) (index : Nat) (hrest : (Value.items vs).drop index = rest) :
    ∃ ss, decodeSteps shell (.seq vs) index rest = whenWritable (rest.flatMap Step.spelled) ss ∧
      (areWritable (rest.flatMap Step.spelled) = true → ∀ s ∈ ss, s.WellTyped) := by
  induction rest generalizing index with
  | nil => exact ⟨[], rfl, by simp⟩
  | cons v rest ih =>
    obtain ⟨hv, hnext⟩ := getElem?_of_drop_eq_cons hrest
    obtain ⟨hwf, haccepts⟩ := h v (List.mem_of_getElem? hv)
    obtain ⟨s, hs, hswt⟩ := Step.decode_of_accepts hwf haccepts hshell index
    obtain ⟨ss, hss, hsswt⟩ := ih (index + 1) hnext
    refine ⟨s :: ss, ?_, fun hwritable => ?_⟩
    · rw [decodeSteps, Value.element_seq hv, Outcome.ok_bind, hs, List.flatMap_cons]
      refine Value.whenWritable_bind ?_
      rw [hss]
      exact Value.whenWritable_map (s :: ·)
    · rw [List.flatMap_cons, Value.areWritable_append, Bool.and_eq_true] at hwritable
      exact List.forall_mem_cons.mpr ⟨hswt hwritable.1, hsswt hwritable.2⟩

@[simp] theorem orNoItems_seq (vs : List Value) : orNoItems (some (.seq vs)) = .seq vs := by
  cases vs <;> rfl

/-- The steps of an accepted document are a sequence, which is empty where it is left out. -/
theorem exists_steps_of_accepts {section? : Option Value}
    (hwf : ∀ v, section? = some v → v.isWellFormed = true)
    (h : ∀ v, section? = some v →
      Schema.accepts [.type [.array], .items Schema.step] v = true) :
    ∃ vs, section?.getD (.seq []) = .seq vs ∧
      Value.elementsOrNone section? = .ok (Value.items vs) ∧ orNoItems section? = .seq vs ∧
      spelledSteps section? = (Value.items vs).flatMap Step.spelled ∧
      ∀ v ∈ Value.items vs, v.isWellFormed = true ∧ Schema.step.accepts v = true := by
  cases section? with
  | none => exact ⟨[], rfl, rfl, rfl, rfl, by simp [Value.items, Value.detachedItems]⟩
  | some w =>
    obtain ⟨vs, rfl, hvs⟩ := Schema.accepts_arrayOf_iff.mp (h w rfl)
    exact ⟨vs, rfl, Value.elementsOrNone_seq vs, orNoItems_seq vs, rfl, fun v hv =>
      ⟨Value.isWellFormed_of_mem_items (hwf _ rfl) hv, hvs v hv⟩⟩

/-- A pipeline with the fields that are read from the entries of its source; `vs` are the steps in
its data. -/
def completed (p : Pipeline) (vs : List Value) (fs : List (Value × Value)) : Outcome Pipeline := do
  let platform ← Platform.decode (field? "platform" fs)
  let version ← decodeVersion (field? "version" fs)
  let node ← decodeNode (field? "node" fs)
  let server ← Server.decode (field? "server" fs)
  let steps ← decodeSteps (defaultShell platform.os) (orNoItems (field? "steps" fs)) 0 vs
  return { p with platform, version, node, server, steps }

/-- A pipeline whose data is accepted is decoded but for the fields that are read from the source,
whatever the source is. -/
theorem exists_draft_of_accepts {es : List (Value × Value)}
    (hwf : (Value.map es).isWellFormed = true) (h : Schema.pipeline.accepts (.map es) = true) :
    ∃ (p : Pipeline) (vs : List Value), p.WellTyped ∧
      Value.elementsOrNone (field? "steps" es) = .ok vs ∧
      ∀ source fs, source.orData (.map es) = .map fs →
        decode (.map es) source = p.completed vs fs := by
  obtain ⟨hrequired, hfield⟩ := fields_of_accepts h
  have hfieldwf : ∀ name w, field? name es = some w → w.isWellFormed = true :=
    fun _ _ hw => Value.isWellFormed_of_field? hwf hw
  have hkind : (field? "kind" es).getD (.str documentKind) = .str documentKind :=
    Value.getD_field? (P := (· = .str documentKind)) rfl fun w hw =>
      Schema.accepts_const_iff.mp (hfield "kind" [.const documentKind]
        (by simp [Schema.pipelineFields, documentKind]) w hw)
  have htype : (field? "type" es).getD (.str documentType) = .str documentType :=
    Value.getD_field? (P := (· = .str documentType)) rfl fun w hw =>
      Schema.accepts_const_iff.mp (hfield "type" [.const documentType]
        (by simp [Schema.pipelineFields, documentType]) w hw)
  obtain ⟨name, hname⟩ := hrequired "name" (by simp)
  have hnonempty := Schema.accepts_nonEmptyString_iff.mp
    (hfield "name" _ (by simp [Schema.pipelineFields]) name hname)
  obtain ⟨dependsOn, hdependsOn⟩ := Value.elementsOrNone_of_accepts fun w hw =>
    hfield "depends_on" Schema.stringList (by simp [Schema.pipelineFields]) w hw
  obtain ⟨workspace, hworkspace, hworkspacewt⟩ := Workspace.decode_of_accepts fun w hw =>
    hfield "workspace" [.type [.object], .properties Workspace.schemas]
      (by simp [Schema.pipelineFields, Workspace.schemas]) w hw
  obtain ⟨clone, hclone, hclonewt⟩ := Clone.decode_of_accepts fun w hw =>
    hfield "clone" [.type [.object], .properties Clone.schemas]
      (by simp [Schema.pipelineFields, Clone.schemas]) w hw
  obtain ⟨trigger, htrigger⟩ := Conditions.decodeField_of_accepts (hfieldwf "trigger")
    (hfield "trigger" Schema.conditions (by simp [Schema.pipelineFields])) "trigger"
  obtain ⟨vs, -, hvs, -⟩ := exists_steps_of_accepts (hfieldwf "steps")
    (hfield "steps" [.type [.array], .items Schema.step] (by simp [Schema.pipelineFields]))
  have hplatformwt : Platform.WellTyped {} := ⟨⟨_, rfl⟩, ⟨_, rfl⟩, ⟨_, rfl⟩, ⟨_, rfl⟩⟩
  refine ⟨{
    kind := .str documentKind, type := .str documentType, name
    dependsOn := .seq (dependsOn.map .str), workspace, clone, trigger }, Value.items vs,
    ⟨rfl, rfl, hnonempty, ⟨_, rfl⟩, ⟨dependsOn, rfl⟩, ⟨[], rfl, by simp⟩, hworkspacewt, hplatformwt,
      hclonewt, by simp⟩, hvs, fun source fs hfs => ?_⟩
  simp only [decode, completed, hfs, Value.getD, Value.get_map, Outcome.ok_bind, hkind, htype,
    requiredField, hname, hdependsOn, hworkspace, hclone, htrigger, hvs, Outcome.pure_eq_ok]

/-- A pipeline that the schema accepts is decoded, if every scalar that becomes a text can be
written, and otherwise that is the fault. -/
theorem decode_of_accepts {data : Value} (hwf : data.isWellFormed = true)
    (h : Schema.pipeline.accepts data = true) :
    ∃ p, decode data .null = whenWritable (spelled data) p ∧
      (areWritable (spelled data) = true → p.WellTyped) := by
  obtain ⟨es, rfl, -⟩ := Schema.accepts_requiredObject_iff.mp h
  obtain ⟨-, hfield⟩ := fields_of_accepts h
  have hfieldwf : ∀ name w, field? name es = some w → w.isWellFormed = true :=
    fun _ _ hw => Value.isWellFormed_of_field? hwf hw
  obtain ⟨p, ds, hp, hds, hdecode⟩ := exists_draft_of_accepts hwf h
  obtain ⟨platform, hplatform, hplatformwt⟩ := Platform.decode_of_accepts fun w hw =>
    hfield "platform" [.type [.object], .properties Platform.schemas]
      (by simp [Schema.pipelineFields, Platform.schemas]) w hw
  obtain ⟨version, hversion, hversiontext⟩ := decodeVersion_of_accepts fun w hw =>
    hfield "version" Schema.version (by simp [Schema.pipelineFields]) w hw
  obtain ⟨node, hnode, hnodes⟩ := decodeNode_of_accepts (hfieldwf "node") fun w hw =>
    hfield "node" _ (by simp [Schema.pipelineFields]) w hw
  obtain ⟨server, hserver⟩ := Server.decode_of_accepts fun w hw =>
    hfield "server" Schema.server (by simp [Schema.pipelineFields]) w hw
  obtain ⟨vs, -, hvs, hsource, hspelled, hsteps⟩ := exists_steps_of_accepts (hfieldwf "steps")
    (hfield "steps" [.type [.array], .items Schema.step] (by simp [Schema.pipelineFields]))
  rw [hvs, Except.ok.injEq] at hds
  subst hds
  obtain ⟨steps, hsteps, hstepswt⟩ :=
    decodeSteps_of_accepts (defaultShell_ne_empty platform.os) hsteps _ 0 rfl
  rw [List.drop_zero, ← hspelled] at hsteps hstepswt
  refine ⟨{ p with platform, version, node := .map node, server, steps }, ?_, fun hwritable => ?_⟩
  · rw [hdecode .null es rfl, completed, hplatform, hversion, hnode, hserver, hsource, spelled]
    refine Value.whenWritable_bind (Value.whenWritable_bind (Value.whenWritable_bind ?_))
    refine Value.whenWritable_bind ?_
    rw [hsteps]
    exact Value.whenWritable_map _
  · simp only [spelled, Value.areWritable_append, Bool.and_eq_true] at hwritable
    exact { hp with
      version := hversiontext
      node := ⟨node, rfl, hnodes⟩
      platform := hplatformwt
      steps := hstepswt hwritable.2.2.2.2 }

/-- A pipeline with a number that cannot be written, where a text is wanted, is not decoded. -/
theorem decode_of_not_areWritable {data : Value} (hwf : data.isWellFormed = true)
    (h : Schema.pipeline.accepts data = true) (hlong : areWritable (spelled data) = false) :
    decode data .null = .error .invalidValue := by
  obtain ⟨p, hp, -⟩ := decode_of_accepts hwf h
  rw [hp, Value.whenWritable_of_not_areWritable hlong]

/-- A document is read as a pipeline if it keeps the schema, is decoded and keeps the lint rules. -/
theorem ofDocumentLinted_eq_ok_iff {d : Document} {p : Pipeline} :
    ofDocumentLinted d = .ok p ↔ Schema.pipeline.accepts d.data = true ∧
      decode d.data (if d.source.isTruthy then d.source else d.data) = .ok p ∧
      p.lint = .ok () := by
  constructor
  · intro h
    obtain ⟨q, hq, h⟩ := Outcome.bind_eq_ok_iff.mp h
    obtain ⟨_, hlint, h⟩ := Outcome.bind_eq_ok_iff.mp h
    cases h
    obtain ⟨_, hcheck, hdecode⟩ := Outcome.bind_eq_ok_iff.mp hq
    exact ⟨(Schema.check_eq_ok_iff _ _ _).mp hcheck, hdecode, hlint⟩
  · rintro ⟨haccepts, hdecode, hlint⟩
    rw [ofDocumentLinted, ofDocument, (Schema.check_eq_ok_iff _ _ _).mpr haccepts,
      Outcome.ok_bind, hdecode, Outcome.ok_bind, hlint, Outcome.ok_bind, Outcome.pure_eq_ok]

end Pipeline

/-! ### Secrets and signatures -/

theorem textField_of_accepts {es : List (Value × Value)} {name : String}
    (h : ∀ w, field? name es = some w → Schema.string.accepts w = true) (fallback : String) :
    ∃ s, textField (.map es) name fallback = .ok s := by
  rw [textField, Value.get_map, Outcome.ok_bind]
  cases hf : field? name es with
  | none => exact ⟨fallback, rfl⟩
  | some w =>
    obtain ⟨s, rfl⟩ := Schema.accepts_string_iff.mp (h w hf)
    exact ⟨s, rfl⟩

/-- A field that must be there and must not be empty. -/
theorem textField_of_required {es : List (Value × Value)} {name : String}
    (hrequired : ∃ w, field? name es = some w)
    (h : ∀ w, field? name es = some w → Schema.accepts [.type [.string], .nonEmpty] w = true)
    (fallback : String) : ∃ s, textField (.map es) name fallback = .ok s ∧ s ≠ "" := by
  obtain ⟨w, hw⟩ := hrequired
  obtain ⟨s, rfl, hs⟩ := Schema.accepts_nonEmptyString_iff.mp (h w hw)
  exact ⟨s, by simp [textField, hw], hs⟩

namespace Secret

/-- The fields of a location with their schemas. -/
def locationSchemas : List (String × Schema) :=
  [("path", Schema.string), ("name", Schema.string), ("key", Schema.string)]

theorem decodeLocation_of_accepts {section? : Option Value}
    (h : ∀ v, section? = some v →
      Schema.accepts [.type [.object], .properties locationSchemas] v = true) :
    ∃ l, decodeLocation section? = .ok l := by
  obtain ⟨es, hes, hfields⟩ := Value.orEmpty_of_accepts h
  have htext : ∀ name ∈ ["path", "name", "key"], ∃ s, textField (.map es) name "" = .ok s := by
    intro name hname
    refine textField_of_accepts (fun w hw => hfields (name, Schema.string) ?_ w hw) ""
    simpa [locationSchemas] using hname
  obtain ⟨path, hpath⟩ := htext "path" (by simp)
  obtain ⟨name, hname⟩ := htext "name" (by simp)
  obtain ⟨key, hkey⟩ := htext "key" (by simp)
  exact ⟨{ path, name, key }, by simp [decodeLocation, hes, hpath, hname, hkey]⟩

/-- A secret that the schema accepts is decoded. -/
theorem decode_of_accepts {d : Document} (h : Schema.secret.accepts d.data = true) :
    ∃ s, decode d = .ok s ∧ s.name ≠ "" := by
  have hcheck := (Schema.check_eq_ok_iff _ _ ("secret " ++ Text.quoted d.name)).mpr h
  obtain ⟨es, hes, hrequired, hfields⟩ := Schema.accepts_requiredObject_iff.mp h
  obtain ⟨location, hlocation⟩ := decodeLocation_of_accepts fun w hw =>
    hfields ("get", [.type [.object], .properties locationSchemas]) (by simp [locationSchemas]) w hw
  obtain ⟨name, hname, hne⟩ := textField_of_required (hrequired "name" (by simp))
    (fun w hw => hfields ("name", _) (by simp) w hw) ""
  obtain ⟨data, hdata⟩ := textField_of_accepts
    (fun w hw => hfields ("data", Schema.string) (by simp) w hw) ""
  refine ⟨{ name, type := d.type, version := d.version, data, location }, ?_, hne⟩
  rw [hes] at hcheck
  simp only [decode, hes, hcheck, Value.get_map, Outcome.ok_bind, hlocation, hname, hdata,
    Outcome.pure_eq_ok]

end Secret

namespace Signature

/-- A signature that the schema accepts is decoded. -/
theorem decode_of_accepts {d : Document} (h : Schema.signature.accepts d.data = true) :
    ∃ s, decode d = .ok s ∧ s.hmac ≠ "" := by
  have hcheck := (Schema.check_eq_ok_iff _ _ "signature").mpr h
  obtain ⟨es, hes, hrequired, hfields⟩ := Schema.accepts_requiredObject_iff.mp h
  obtain ⟨hmac, hhmac, hne⟩ := textField_of_required (hrequired "hmac" (by simp))
    (fun w hw => hfields ("hmac", _) (by simp) w hw) ""
  refine ⟨{ hmac }, ?_, hne⟩
  rw [hes] at hcheck
  simp only [decode, hes, hcheck, Outcome.ok_bind, hhmac, Outcome.pure_eq_ok]

end Signature

/-! ### All families -/

/-- A document about which its schema reports nothing is decoded, whatever it is, if every scalar
that becomes a text can be written. A pipeline with a version, a variable or the like that is a
number too long to be written is not: its decoder fails, and this is the only fault of a decoder
that the schema does not rule out. -/
theorem decode_of_report_eq_nil (data : Value) (d : Document) :
    (data.isWellFormed = true → Schema.report Schema.pipeline data = [] →
      ((∀ v ∈ Pipeline.spelled data, v.isWritable = true) →
        ∃ p, Pipeline.decode data .null = .ok p ∧ p.WellTyped) ∧
      ∀ v ∈ Pipeline.spelled data, v.isWritable = false →
        Pipeline.decode data .null = .error .invalidValue) ∧
    (Schema.report Schema.secret d.data = [] → ∃ s, Secret.decode d = .ok s ∧ s.name ≠ "") ∧
    (Schema.report Schema.signature d.data = [] →
      ∃ s, Signature.decode d = .ok s ∧ s.hmac ≠ "") := by
  refine ⟨fun hwf h => ?_, fun h => ?_, fun h => ?_⟩
  · obtain ⟨p, hp, hwt⟩ := Pipeline.decode_of_accepts hwf ((Schema.report_eq_nil_iff _ _).mp h)
    refine ⟨fun hwritable => ?_, fun v hv hlong => ?_⟩
    · exact ⟨p, hp.trans (Value.whenWritable_of_forall hwritable),
        hwt (Value.areWritable_iff.mpr hwritable)⟩
    · exact hp.trans (Value.whenWritable_of_mem hv hlong)
  · exact Secret.decode_of_accepts ((Schema.report_eq_nil_iff _ _).mp h)
  · exact Signature.decode_of_accepts ((Schema.report_eq_nil_iff _ _).mp h)

/-- A pipeline whose version is a number, whose node has a number as a key, and whose step has a
condition. -/
def plainPipeline : Value := .map [
  (.str "kind", .str "pipeline"), (.str "type", .str "ssh"), (.str "name", .str "build"),
  (.str "version", .int 2), (.str "node", .map [(.int 1, .bool true)]),
  (.str "clone", .map [(.str "depth", .int 50)]),
  (.str "server", .map [(.str "host", .str "h"), (.str "user", .null)]),
  (.str "steps", .seq [.map [
    (.str "name", .str "test"), (.str "commands", .seq [.str "make"]),
    (.str "environment", .map [(.str "LEVEL", .int 3)]),
    (.str "when", .map [(.str "branch", .str "main")])]])]

/-- A secret of a few fields. -/
def plainSecret : Document :=
  ⟨"secret", "", "", "token", .map [(.str "kind", .str "secret"), (.str "name", .str "token")],
    .null⟩

/-- A signature. -/
def plainSignature : Document :=
  ⟨"signature", "", "", "", .map [(.str "kind", .str "signature"), (.str "hmac", .str "c0de")],
    .null⟩

/-- A pipeline without steps, whose version is the least number that is too long to be written. -/
def longVersion : Value := .map [
  (.str "kind", .str "pipeline"), (.str "type", .str "ssh"), (.str "name", .str "build"),
  (.str "version", .int Number.writableBound)]

/-- The schema reports nothing about the version, and it cannot be decoded. -/
theorem decode_longVersion :
    longVersion.isWellFormed = true ∧ Schema.report Schema.pipeline longVersion = [] ∧
      Pipeline.decode longVersion .null = .error .invalidValue := by
  have haccepts : longVersion.isWellFormed = true ∧ Schema.pipeline.accepts longVersion = true := by
    decide +kernel
  refine ⟨haccepts.1, (Schema.report_eq_nil_iff _ _).mpr haccepts.2, ?_⟩
  exact Pipeline.decode_of_not_areWritable haccepts.1 haccepts.2 (by decide +kernel)

theorem decode_of_report_eq_nil_plain :
    (∃ p, Pipeline.decode plainPipeline .null = .ok p ∧ p.WellTyped) ∧
    (∃ s, Secret.decode plainSecret = .ok s ∧ s.name ≠ "") ∧
    (∃ s, Signature.decode plainSignature = .ok s ∧ s.hmac ≠ "") :=
  ⟨((decode_of_report_eq_nil plainPipeline plainSecret).1 (by decide +kernel)
      (by decide +kernel)).1 (by decide +kernel),
    (decode_of_report_eq_nil plainPipeline plainSecret).2.1 (by decide +kernel),
    (decode_of_report_eq_nil plainPipeline plainSignature).2.2 (by decide +kernel)⟩

end PipelineManifest
