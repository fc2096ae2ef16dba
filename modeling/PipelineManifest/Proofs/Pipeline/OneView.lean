import PipelineManifest.Proofs.Pipeline.Decode
import PipelineManifest.Proofs.Pipeline.Quoted

/-!
# `PipelineManifest.Proofs.Pipeline.OneView`: two views are read as one

The decoder reads the fields that keep their spelling from the source of a document, and all other
fields from its data. The same pipeline is read from one view alone, the data of the document in
which the spelled scalars are in quotes.

* `Layout.decode_quoted`: a pipeline is read from data and source as from the quoted document.
* `Layout.accepts_quoted`: a document that the schema accepts is accepted in quotes, if the keys of
  its node and of its environments agree.
-/

set_option autoImplicit false

namespace PipelineManifest

open Yaml (Layout Written Tag)

namespace Yaml.Layout

variable {p ℓ : Layout} {entries : List (Written × Layout)}

/-! ### Scalars -/

/-- A scalar in quotes stands for its spelling. -/
theorem source_eq_of_isScalar (h : p.quoteScalar.data.isScalar = true) :
    p.source = p.quoteScalar.data := by
  cases p with
  | scalar w => exact w.resolve_quote.symm
  | _ => cases h

/-- A scalar that is not null is a text in quotes. -/
theorem exists_str_of_data (h : p.data.isScalar = true) (hnull : p.data ≠ .null) :
    ∃ s, p.quoteScalar.data = .str s := by
  obtain ⟨w, rfl⟩ := eq_scalar_of_data h
  refine ⟨w.text, ?_⟩
  show w.quote.resolve = _
  rw [w.resolve_quote, Written.spell, if_neg]
  intro htag
  refine hnull ?_
  show w.resolve = .null
  rw [Written.resolve, htag]
  rfl

/-- A text is the same text in quotes. -/
theorem quoteScalar_data_of_str {s : String} (h : p.data = .str s) :
    p.quoteScalar.data = .str s := by
  have hscalar : p.data.isScalar = true := by rw [h]; rfl
  obtain ⟨w, rfl⟩ := eq_scalar_of_data hscalar
  show w.quote.resolve = _
  rw [w.resolve_quote]
  exact Written.spell_of_resolve_eq_str h

/-- Whether a value that keeps a schema keeps it in quotes. -/
def KeepsQuoted (schema : Schema) : Prop :=
  ∀ p : Layout, schema.accepts p.data = true → schema.accepts p.quoteScalar.data = true

theorem keepsQuoted_string : KeepsQuoted Schema.string := by
  intro p h
  obtain ⟨s, hs⟩ := Schema.accepts_string_iff.mp h
  exact Schema.accepts_string_iff.mpr ⟨s, quoteScalar_data_of_str hs⟩

/-- Texts are scalars. -/
theorem isScalar_of_accepts_string {v : Value} (h : Schema.string.accepts v = true) :
    v.isScalar = true ∧ v ≠ .null := by
  obtain ⟨s, rfl⟩ := Schema.accepts_string_iff.mp h
  exact ⟨rfl, by simp⟩

/-- A schema of scalars that accepts all texts. -/
theorem keepsQuoted_of_isScalar {schema : Schema}
    (hscalar : ∀ v, schema.accepts v = true → v.isScalar = true ∧ v ≠ .null)
    (hstr : ∀ s, schema.accepts (.str s) = true) : KeepsQuoted schema := by
  intro p h
  obtain ⟨hp, hnull⟩ := hscalar _ h
  obtain ⟨s, hs⟩ := exists_str_of_data hp hnull
  rw [hs]
  exact hstr s

/-- Versions are scalars. -/
theorem isScalar_of_accepts_version {v : Value} (h : Schema.version.accepts v = true) :
    v.isScalar = true ∧ v ≠ .null := by
  rcases Schema.accepts_version_iff.mp h with ⟨s, rfl⟩ | ⟨i, rfl⟩ | ⟨x, rfl⟩
  · exact ⟨rfl, by simp⟩
  · exact ⟨rfl, by simp⟩
  · exact ⟨rfl, by simp⟩

theorem keepsQuoted_version : KeepsQuoted Schema.version :=
  keepsQuoted_of_isScalar (fun _ => isScalar_of_accepts_version)
    fun s => Schema.accepts_version_iff.mpr (.inl ⟨s, rfl⟩)

/-- The fields of a platform are scalars. -/
theorem isScalar_of_accepts_platform {v : Value} (f : String × Schema) (hf : f ∈ Platform.schemas)
    (h : f.2.accepts v = true) : v.isScalar = true ∧ v ≠ .null := by
  simp only [Platform.schemas, List.mem_cons, List.not_mem_nil, or_false] at hf
  rcases hf with rfl | rfl | rfl | rfl
  · exact isScalar_of_accepts_string h
  · exact isScalar_of_accepts_string h
  · exact isScalar_of_accepts_string h
  · exact isScalar_of_accepts_version h

/-- The schema of the values of a node. -/
def nodeValue : Schema := [.type [.string, .number, .boolean]]

/-- The values of a node are scalars. -/
theorem isScalar_of_accepts_nodeValue {v : Value} (h : nodeValue.accepts v = true) :
    v.isScalar = true ∧ v ≠ .null := by
  rw [nodeValue, Schema.accepts_singleton, Schema.accepts_type] at h
  cases v with
  | bool b => exact ⟨rfl, by simp⟩
  | int i => exact ⟨rfl, by simp⟩
  | float x => exact ⟨rfl, by simp⟩
  | str s => exact ⟨rfl, by simp⟩
  | _ => cases h

theorem keepsQuoted_nodeValue : KeepsQuoted nodeValue :=
  keepsQuoted_of_isScalar (fun _ => isScalar_of_accepts_nodeValue) fun s => by
    rw [nodeValue, Schema.accepts_singleton, Schema.accepts_type]
    rfl

/-- In quotes a variable is a literal or absent, and a secret is left as it is. -/
theorem keepsQuoted_variableValue : KeepsQuoted Schema.variableValue := by
  intro p h
  rw [Schema.accepts_variableValue_iff] at h ⊢
  cases p with
  | scalar w =>
    show Schema.IsVariable w.quote.resolve
    rw [w.resolve_quote, Written.spell]
    split
    · exact .null
    · exact .str w.text
  | _ => exact h

/-! ### Variables -/

/-- A variable is decoded from the source as from the data in quotes. Of a secret only the field
that names it is read, and that is a text. -/
theorem decode_variable_source (hp : p.isSound 0 = true)
    (h : Schema.variableValue.accepts p.quoteScalar.data = true) (place : String) :
    Variable.decode p.source place = Variable.decode p.quoteScalar.data place := by
  rw [Schema.accepts_variableValue_iff] at h
  cases p with
  | scalar w => rw [source_eq_of_isScalar (p := scalar w) w.quote.isScalar_resolve]
  | seq items => cases h
  | map entries =>
    show Variable.decode (.map (sourceEntries entries)) place
      = Variable.decode (.map (dataEntries entries)) place
    cases h with
    | @secret _ s only name =>
      have hname : Value.field? "from_secret" (dataEntries entries) = some (.str s) := name
      rw [Variable.decode, Variable.decode, Variable.decodeSecret, Variable.decodeSecret,
        Variable.secretField, hname]
      rw [field?_data] at hname
      obtain ⟨q, hq, hs⟩ := Option.map_eq_some_iff.mp hname
      have hsource : Value.field? "from_secret" (sourceEntries entries) = some (.str s) := by
        have hscalar : q.quoteScalar.data.isScalar = true := by
          rw [quoteScalar_data_of_str hs]
          rfl
        rw [field?_source hp rfl, hq, Option.map_some, source_eq_of_isScalar hscalar,
          quoteScalar_data_of_str hs]
      rw [hsource]
  | back n => cases h

/-! ### Sections -/

/-- A field of a section is the same in the source and in the data in quotes, if it is a scalar. -/
theorem field?_source_eq (hp : (map entries).isSound 0 = true) {name : String}
    (hname : Tag.ofPlain name = .text)
    (h : ∀ v, Value.field? name (dataEntries (changedEntries id (fun _ q => q.quoteScalar) entries))
      = some v → v.isScalar = true) :
    Value.field? name (sourceEntries entries)
      = Value.field? name (dataEntries (changedEntries id (fun _ q => q.quoteScalar) entries)) := by
  rw [field?_data_changed (fun _ _ => isSound_quoteScalar) hp] at h ⊢
  rw [field?_source hp hname]
  cases hq : (map entries).field? name with
  | none => rfl
  | some q =>
    rw [hq] at h
    exact congrArg some (source_eq_of_isScalar (h _ rfl))

/-- The fields of a mapping keep their schemas when they are changed, if each of them does. -/
theorem accepts_changed {value : Written → Layout → Layout}
    (hvalue : ∀ w p, p.isSound 0 = true → (value w p).isSound 0 = true)
    (hp : (map entries).isSound 0 = true) {fields : List (String × Schema)}
    (hkeep : ∀ f ∈ fields, ∀ q, (map entries).field? f.1 = some q → f.2.accepts q.data = true →
      f.2.accepts (value ⟨.text, f.1⟩ q).data = true)
    (h : ∀ f ∈ fields, ∀ v, Value.field? f.1 (dataEntries entries) = some v →
      f.2.accepts v = true) :
    ∀ f ∈ fields, ∀ v, Value.field? f.1 (dataEntries (changedEntries id value entries)) = some v →
      f.2.accepts v = true := by
  intro f hf v hv
  rw [field?_data_changed hvalue hp] at hv
  obtain ⟨q, hq, rfl⟩ := Option.map_eq_some_iff.mp hv
  refine hkeep f hf q hq (h f hf q.data ?_)
  rw [field?_data, hq]
  rfl

/-- A section whose fields keep their schemas in quotes. -/
theorem accepts_quotedSection {fields : List (String × Schema)}
    (hfields : ∀ f ∈ fields, KeepsQuoted f.2) (hp : p.isSound 0 = true)
    (h : Schema.accepts [.type [.object], .properties fields] p.data = true) :
    Schema.accepts [.type [.object], .properties fields] p.quotedSection.data = true := by
  obtain ⟨es, hes, hkeep⟩ := Schema.accepts_object_iff.mp h
  obtain ⟨entries, rfl, rfl⟩ := eq_map_of_data hes
  refine Schema.accepts_object_iff.mpr ⟨_, rfl, ?_⟩
  exact accepts_changed (fun _ _ => isSound_quoteScalar) hp
    (fun f hf q _ hq => hfields f hf q hq) hkeep

/-- Quoting the values of a section leaves its keys alone. -/
theorem keys_quotedSection (entries : List (Written × Layout)) :
    (dataEntries (changedEntries id (fun _ q => q.quoteScalar) entries)).map Prod.fst
      = (dataEntries entries).map Prod.fst := by
  have hkeys : ∀ value : Written × Layout → Value,
      (Value.ofEntries (entries.map fun e => (e.1.resolve, value e))).map Prod.fst
        = (Value.kept (fun a b : Written × Layout => Value.sameKey a.1.resolve b.1.resolve)
            entries).map fun p => p.1.1.resolve := by
    intro value
    rw [Value.ofEntries_eq_map_kept (fun e : Written × Layout => e.1.resolve), List.map_map]
    rfl
  rw [dataEntries, dataEntries, readEntries_eq_map, readEntries_eq_map, changedEntries,
    List.map_map, hkeys]
  exact hkeys _

/-- The platform is decoded from the source as from the data in quotes. -/
theorem decode_platform_source {o : Option Layout} (hsound : ∀ p, o = some p → p.isSound 0 = true)
    (h : ∀ p, o = some p → Schema.accepts [.type [.object], .properties Platform.schemas]
      p.quotedSection.data = true) :
    Platform.decode (o.map source) = Platform.decode (o.map fun p => p.quotedSection.data) := by
  cases o with
  | none => rfl
  | some p =>
    have hp := hsound p rfl
    obtain ⟨es, hes, hkeep⟩ := Schema.accepts_object_iff.mp (h p rfl)
    obtain ⟨entries, rfl, rfl⟩ := eq_map_of_data_mapEntries hes
    have hfield : ∀ name schema, (name, schema) ∈ Platform.schemas →
        Tag.ofPlain name = .text → Value.field? name (sourceEntries entries)
          = Value.field? name
              (dataEntries (changedEntries id (fun _ q => q.quoteScalar) entries)) := by
      intro name schema hmem hname
      refine field?_source_eq hp hname fun v hv => ?_
      exact (isScalar_of_accepts_platform (name, schema) hmem (hkeep (name, schema) hmem v hv)).1
    show Platform.decode (some (.map (sourceEntries entries)))
      = Platform.decode (some (.map (dataEntries _)))
    simp only [Platform.decode, Value.orEmpty_map, Value.getD, Value.get_map, Outcome.ok_bind,
      hfield "os" Schema.string (by simp [Platform.schemas]) rfl,
      hfield "arch" Schema.string (by simp [Platform.schemas]) rfl,
      hfield "variant" Schema.string (by simp [Platform.schemas]) rfl,
      hfield "version" Schema.version (by simp [Platform.schemas]) rfl]

/-- The server is decoded from the source as from the data in quotes. -/
theorem decode_server_source {o : Option Layout} (hsound : ∀ p, o = some p → p.isSound 0 = true)
    (h : ∀ p, o = some p → Schema.server.accepts p.quotedSection.data = true) :
    Server.decode (o.map source) = Server.decode (o.map fun p => p.quotedSection.data) := by
  cases o with
  | none => rfl
  | some p =>
    have hp := hsound p rfl
    obtain ⟨es, hes, hkeep⟩ :=
      Schema.accepts_object_iff.mp (Server.accepts_schemas (h p rfl))
    obtain ⟨entries, rfl, rfl⟩ := eq_map_of_data_mapEntries hes
    have hfield : ∀ name ∈ ["host", "user", "password", "ssh_key"], Tag.ofPlain name = .text →
        ∀ place, Variable.decodeField (Value.field? name (sourceEntries entries)) place
          = Variable.decodeField (Value.field? name
              (dataEntries (changedEntries id (fun _ q => q.quoteScalar) entries))) place := by
      intro name hmem hname place
      have hkeep := hkeep (name, Schema.variableValue) (List.mem_map_of_mem hmem)
      rw [field?_data_changed (fun _ _ => isSound_quoteScalar) hp] at hkeep ⊢
      rw [field?_source hp hname]
      cases hq : (map entries).field? name with
      | none => rfl
      | some q =>
        rw [hq] at hkeep
        exact decode_variable_source (isSound_of_field? hp hq) (hkeep _ rfl) place
    show Server.decode (some (.map (sourceEntries entries)))
      = Server.decode (some (.map (dataEntries _)))
    simp only [Server.decode, Value.orEmpty_map, Value.get_map, Outcome.ok_bind,
      hfield "host" (by simp) rfl, hfield "user" (by simp) rfl, hfield "password" (by simp) rfl,
      hfield "ssh_key" (by simp) rfl]

/-! ### The node and the environments -/

/-- The node is decoded from the source as from the data in quotes. -/
theorem decode_node_source {o : Option Layout}
    (h : ∀ p, o = some p → Schema.accepts [.type [.object], .others [] nodeValue]
      p.quotedTable.data = true) (hsound : ∀ p, o = some p → p.isSound 0 = true) :
    Pipeline.decodeNode (o.map source)
      = Pipeline.decodeNode (o.map fun p => p.quotedTable.data) := by
  cases o with
  | none => rfl
  | some p =>
    have hp := hsound p rfl
    obtain ⟨es, hes, hkeep⟩ := Schema.accepts_allOf_iff.mp (h p rfl)
    obtain ⟨entries, rfl, rfl⟩ := eq_map_of_data_mapEntries hes
    rw [entries_quotedTable hp] at hkeep
    show Pipeline.decodeNode (some (.map (sourceEntries entries)))
      = Pipeline.decodeNode (some (.map (dataEntries _)))
    rw [Pipeline.decodeNode, Pipeline.decodeNode, Value.orEmpty_map, Value.orEmpty_map,
      Value.fields_map, Value.fields_map, entries_source, entries_quotedTable hp]
    have htexts : ∀ e ∈ leftParts entries, e.2.source = e.2.quoteScalar.data := by
      intro e he
      have hvalue := hkeep (e.1, e.2.quoteScalar.data) (List.mem_map_of_mem he)
      exact source_eq_of_isScalar (isScalar_of_accepts_nodeValue hvalue).1
    have hentries : (leftParts entries).map (fun e => (e.1, e.2.source))
        = (leftParts entries).map fun e => (e.1, e.2.quoteScalar.data) :=
      List.map_congr_left fun e he => by rw [htexts e he]
    rw [hentries]

/-- An environment is decoded from the source as from the data in quotes. -/
theorem decodeEnvironment_source (index : Nat) {ps : List (Value × Layout)}
    (hsound : ∀ e ∈ ps, e.2.isSound 0 = true)
    (h : ∀ e ∈ ps, Schema.variableValue.accepts e.2.quoteScalar.data = true) :
    Step.decodeEnvironment index (ps.map fun e => (e.1, e.2.source))
      = Step.decodeEnvironment index (ps.map fun e => (e.1, e.2.quoteScalar.data)) := by
  rw [Step.decodeEnvironment, Step.decodeEnvironment]
  induction ps with
  | nil => rfl
  | cons e ps ih =>
    rw [List.map_cons, List.map_cons, List.mapM_cons, List.mapM_cons,
      ih (fun f hf => hsound f (List.mem_cons_of_mem _ hf))
        fun f hf => h f (List.mem_cons_of_mem _ hf)]
    simp only [Step.decodeEntry,
      decode_variable_source (hsound e List.mem_cons_self) (h e List.mem_cons_self)]

/-- What an accepted environment holds in the source is decoded as what it holds in quotes. -/
theorem environment_source {o : Option Layout} (hsound : ∀ p, o = some p → p.isSound 0 = true)
    (h : ∀ p, o = some p → Schema.accepts [.type [.object], .others [] Schema.variableValue]
      p.quotedTable.data = true) (index : Nat) :
    ∃ es fs, Value.orEmpty (o.map source) = .map es ∧
      Value.orEmpty (o.map fun p => p.quotedTable.data) = .map fs ∧
      Step.decodeEnvironment index (Value.entries es)
        = Step.decodeEnvironment index (Value.entries fs) := by
  cases o with
  | none => exact ⟨[], [], rfl, rfl, rfl⟩
  | some p =>
    have hp := hsound p rfl
    obtain ⟨es, hes, hkeep⟩ := Schema.accepts_allOf_iff.mp (h p rfl)
    obtain ⟨entries, rfl, rfl⟩ := eq_map_of_data_mapEntries hes
    rw [entries_quotedTable hp] at hkeep
    refine ⟨sourceEntries entries,
      dataEntries (changedEntries Written.quote (fun _ q => q.quoteScalar) entries),
      Value.orEmpty_map _, Value.orEmpty_map _, ?_⟩
    rw [entries_source, entries_quotedTable hp]
    exact decodeEnvironment_source index (isSound_of_mem_leftParts hp)
      fun e he => hkeep (e.1, e.2.quoteScalar.data) (List.mem_map_of_mem he)

/-! ### The steps -/

/-- Only the environment of a step is spelled. -/
theorem quotedStepField_of_ne {name : String} (h : name ≠ "environment") (p : Layout) :
    quotedStepField ⟨.text, name⟩ p = p := by
  rw [quotedStepField, Written.isField]
  simp [h]

theorem quotedStepField_environment (p : Layout) :
    quotedStepField ⟨.text, "environment"⟩ p = p.quotedTable := by
  simp [quotedStepField, Written.isField]

/-- A step is decoded from its data and its source as from its data in quotes. -/
theorem decode_step_source (hp : p.isSound 0 = true)
    (h : Schema.step.accepts p.quotedStep.data = true) (shell : String) (index : Nat) :
    Step.decode p.data shell index p.source
      = Step.decode p.quotedStep.data shell index p.quotedStep.data := by
  rw [Step.schema_eq] at h
  obtain ⟨es, hes, hkeep⟩ := Schema.accepts_object_iff.mp h
  obtain ⟨entries, rfl, rfl⟩ := eq_map_of_data_mapEntries hes
  have hquoted : ∀ name, Value.field? name (dataEntries (changedEntries id quotedStepField entries))
      = ((map entries).field? name).map fun q => (quotedStepField ⟨.text, name⟩ q).data :=
    field?_data_changed (fun _ _ => isSound_quotedStepField) hp
  have hsame : ∀ name, name ≠ "environment" →
      Value.field? name (dataEntries (changedEntries id quotedStepField entries))
        = Value.field? name (dataEntries entries) := by
    intro name hname
    rw [hquoted, field?_data]
    exact congrArg (Option.map · _) (funext fun q => by rw [quotedStepField_of_ne hname])
  have henvironment := hquoted "environment"
  simp only [quotedStepField_environment] at henvironment
  have hkeep := hkeep ("environment", [.type [.object], .others [] Schema.variableValue])
    (by simp [Step.schemas])
  obtain ⟨fs, gs, hfs, hgs, hdecode⟩ := environment_source
    (fun q hq => isSound_of_field? hp hq)
    (fun q hq => hkeep _ (by rw [henvironment, hq, Option.map_some])) index
  rw [← field?_source hp (by rfl)] at hfs
  rw [← henvironment] at hgs
  show Step.decode (.map (dataEntries entries)) shell index (.map (sourceEntries entries))
    = Step.decode (.map (dataEntries _)) shell index (.map (dataEntries _))
  simp only [Step.decode, Value.orData_map, Value.get_map, Value.getD, Outcome.ok_bind, hfs, hgs,
    Value.fields_map, hdecode, hsame "name" (by simp), hsame "shell" (by simp),
    hsame "detach" (by simp), hsame "depends_on" (by simp), hsame "commands" (by simp),
    hsame "failure" (by simp), hsame "when" (by simp)]

/-- The steps from a position on are decoded from their data and sources as from their data in
quotes. The induction is on the steps that are left; `before` is their number. -/
theorem decodeSteps_source (shell : String) {parts : List Layout} {vs ws : List Value}
    (hvs : Value.items vs = parts.map source)
    (hws : Value.items ws = parts.map fun p => p.quotedStep.data)
    (hsound : ∀ p ∈ parts, p.isSound 0 = true)
    (h : ∀ p ∈ parts, Schema.step.accepts p.quotedStep.data = true) (rest : List Layout)
    (before : Nat) (hrest : parts.drop before = rest) :
    Pipeline.decodeSteps shell (.seq vs) before (rest.map data)
      = Pipeline.decodeSteps shell (.seq ws) before (rest.map fun p => p.quotedStep.data) := by
  induction rest generalizing before with
  | nil => rfl
  | cons p rest ih =>
    obtain ⟨hp, hnext⟩ := getElem?_of_drop_eq_cons hrest
    have hmem := List.mem_of_getElem? hp
    have hv : (Value.items vs)[before]? = some p.source := by
      rw [hvs, List.getElem?_map, hp]
      rfl
    have hw : (Value.items ws)[before]? = some p.quotedStep.data := by
      rw [hws, List.getElem?_map, hp]
      rfl
    rw [List.map_cons, List.map_cons, Pipeline.decodeSteps, Pipeline.decodeSteps,
      Value.element_seq hv, Value.element_seq hw, Outcome.ok_bind, Outcome.ok_bind,
      decode_step_source (hsound p hmem) (h p hmem), ih (before + 1) hnext]

/-- Steps are decoded from the data and the source as from the data in quotes. -/
theorem decode_steps_source {o : Option Layout} (hsound : ∀ p, o = some p → p.isSound 0 = true)
    (h : ∀ p, o = some p →
      Schema.accepts [.type [.array], .items Schema.step] p.quotedSteps.data = true) :
    ∃ ds qs, Value.elementsOrNone (o.map data) = .ok ds ∧
      Value.elementsOrNone (o.map fun p => p.quotedSteps.data) = .ok qs ∧
      ∀ shell, Pipeline.decodeSteps shell (Pipeline.orNoItems (o.map source)) 0 ds
        = Pipeline.decodeSteps shell
            (Pipeline.orNoItems (o.map fun p => p.quotedSteps.data)) 0 qs := by
  cases o with
  | none => exact ⟨[], [], rfl, rfl, fun _ => rfl⟩
  | some p =>
    have hp := hsound p rfl
    obtain ⟨ws, hws, hkeep⟩ := Schema.accepts_arrayOf_iff.mp (h p rfl)
    cases p with
    | seq ℓs =>
      have hquoted : (seq ℓs).quotedSteps.data
          = .seq (readItems Written.resolve ((itemParts ℓs).map quotedStep)) := rfl
      have hitems : Value.items (readItems Written.resolve ((itemParts ℓs).map quotedStep))
          = (itemParts ℓs).map fun p => p.quotedStep.data := by
        rw [items_data, itemParts_quotedSteps hp, List.map_map]
        rfl
      rw [hquoted] at hws
      rw [← Value.seq.inj hws, hitems] at hkeep
      refine ⟨(itemParts ℓs).map data, (itemParts ℓs).map fun p => p.quotedStep.data, ?_, ?_,
        fun shell => ?_⟩
      · rw [Option.map_some, data_seq, Value.elementsOrNone_seq, items_data]
      · rw [Option.map_some, hquoted, Value.elementsOrNone_seq, hitems]
      · rw [Option.map_some, Option.map_some, source_seq, hquoted, Pipeline.orNoItems_seq,
          Pipeline.orNoItems_seq]
        exact decodeSteps_source shell (items_source ℓs) hitems (isSound_of_mem_itemParts hp)
          (fun q hq => hkeep q.quotedStep.data (List.mem_map.mpr ⟨q, hq, rfl⟩)) _ 0 rfl
    | _ =>
      obtain ⟨ℓs, heq, -⟩ := eq_seq_of_data hws
      cases heq

/-! ### The pipeline -/

/-- The fields of a pipeline that are not spelled. -/
theorem quotedField_of_not_mem {name : String}
    (h : name ∉ ["version", "node", "platform", "server", "steps"]) (p : Layout) :
    quotedField ⟨.text, name⟩ p = p := by
  simp only [List.mem_cons, List.not_mem_nil, or_false, not_or] at h
  simp [quotedField, Written.isField, h]

theorem quotedField_version (p : Layout) : quotedField ⟨.text, "version"⟩ p = p.quoteScalar := by
  simp [quotedField, Written.isField]

theorem quotedField_node (p : Layout) : quotedField ⟨.text, "node"⟩ p = p.quotedTable := by
  simp [quotedField, Written.isField]

theorem quotedField_platform (p : Layout) :
    quotedField ⟨.text, "platform"⟩ p = p.quotedSection := by
  simp [quotedField, Written.isField]

theorem quotedField_server (p : Layout) : quotedField ⟨.text, "server"⟩ p = p.quotedSection := by
  simp [quotedField, Written.isField]

theorem quotedField_steps (p : Layout) : quotedField ⟨.text, "steps"⟩ p = p.quotedSteps := by
  simp [quotedField, Written.isField]

/-- A pipeline is decoded from data and source as from the quoted document, if the schema accepts
that. -/
theorem decode_quoted (hℓ : ℓ.isSound 0 = true) (h : Schema.pipeline.accepts ℓ.spelled = true) :
    Pipeline.decode ℓ.data ℓ.source = Pipeline.decode ℓ.spelled .null := by
  obtain ⟨es, hes, -, hkeep⟩ := Schema.accepts_requiredObject_iff.mp h
  obtain ⟨entries, rfl, rfl⟩ := eq_map_of_data_mapEntries hes
  have hquoted : ∀ name, Value.field? name (dataEntries (changedEntries id quotedField entries))
      = ((map entries).field? name).map fun q => (quotedField ⟨.text, name⟩ q).data :=
    field?_data_changed (fun _ _ => isSound_quotedField) hℓ
  have hsame : ∀ name, name ∉ ["version", "node", "platform", "server", "steps"] →
      Value.field? name (dataEntries (changedEntries id quotedField entries))
        = Value.field? name (dataEntries entries) := by
    intro name hname
    rw [hquoted, field?_data]
    exact congrArg (Option.map · _) (funext fun q => by rw [quotedField_of_not_mem hname])
  have hsound : ∀ name q, (map entries).field? name = some q → q.isSound 0 = true :=
    fun _ _ hq => isSound_of_field? hℓ hq
  have hsource : ∀ name, Tag.ofPlain name = .text →
      Value.field? name (sourceEntries entries) = ((map entries).field? name).map source :=
    fun _ hname => field?_source hℓ hname
  have haccepts : ∀ name schema, (name, schema) ∈ Schema.pipelineFields →
      ∀ q, (map entries).field? name = some q →
        Schema.accepts schema (quotedField ⟨.text, name⟩ q).data = true := by
    intro name schema hmem q hq
    refine hkeep (name, schema) hmem _ ?_
    rw [hquoted, hq, Option.map_some]
  -- The fields that are spelled, one after the other.
  have hversion : Value.field? "version" (sourceEntries entries)
      = Value.field? "version" (dataEntries (changedEntries id quotedField entries)) := by
    have hkeep := haccepts "version" Schema.version (by simp [Schema.pipelineFields])
    simp only [quotedField_version] at hkeep
    rw [hsource "version" rfl, hquoted]
    simp only [quotedField_version]
    cases hq : (map entries).field? "version" with
    | none => rfl
    | some q =>
      exact congrArg some (source_eq_of_isScalar (isScalar_of_accepts_version (hkeep q hq)).1)
  have hnode := decode_node_source (o := (map entries).field? "node") (by
    have hkeep := haccepts "node" [.type [.object], .others [] nodeValue]
      (by simp [Schema.pipelineFields, nodeValue])
    simpa only [quotedField_node] using hkeep) (hsound "node")
  have hplatform := decode_platform_source (hsound "platform") (by
    have hkeep := haccepts "platform" [.type [.object], .properties Platform.schemas]
      (by simp [Schema.pipelineFields, Platform.schemas])
    simpa only [quotedField_platform] using hkeep)
  have hserver := decode_server_source (hsound "server") (by
    have hkeep := haccepts "server" Schema.server (by simp [Schema.pipelineFields])
    simpa only [quotedField_server] using hkeep)
  obtain ⟨ds, qs, hds, hqs, hsteps⟩ := decode_steps_source (hsound "steps") (by
    have hkeep := haccepts "steps" [.type [.array], .items Schema.step]
      (by simp [Schema.pipelineFields])
    simpa only [quotedField_steps] using hkeep)
  have hquotedNode := hquoted "node"
  have hquotedPlatform := hquoted "platform"
  have hquotedServer := hquoted "server"
  have hquotedSteps := hquoted "steps"
  simp only [quotedField_node, quotedField_platform, quotedField_server, quotedField_steps]
    at hquotedNode hquotedPlatform hquotedServer hquotedSteps
  show Pipeline.decode (.map (dataEntries entries)) (.map (sourceEntries entries))
    = Pipeline.decode (.map (dataEntries (changedEntries id quotedField entries))) .null
  simp only [Pipeline.decode, Value.orData_map, Value.orData_null, Value.get_map, Value.getD,
    Pipeline.requiredField, Outcome.ok_bind, hversion, hsource "node" rfl, hsource "platform" rfl,
    hsource "server" rfl, hsource "steps" rfl, hquotedNode, hquotedPlatform, hquotedServer,
    hquotedSteps, hnode, hplatform, hserver, field?_data entries "steps", hds, hqs, hsteps,
    hsame "kind" (by simp), hsame "type" (by simp), hsame "name" (by simp),
    hsame "depends_on" (by simp), hsame "workspace" (by simp), hsame "clone" (by simp),
    hsame "trigger" (by simp)]

/-! ### Acceptance -/

/-- The fields of a platform keep their schemas in quotes. -/
theorem keepsQuoted_platform : ∀ f ∈ Platform.schemas, KeepsQuoted f.2 := by
  intro f hf
  simp only [Platform.schemas, List.mem_cons, List.not_mem_nil, or_false] at hf
  rcases hf with rfl | rfl | rfl | rfl
  · exact keepsQuoted_string
  · exact keepsQuoted_string
  · exact keepsQuoted_string
  · exact keepsQuoted_version

/-- The server is accepted in quotes. -/
theorem accepts_quotedServer (hp : p.isSound 0 = true)
    (h : Schema.server.accepts p.data = true) :
    Schema.server.accepts p.quotedSection.data = true := by
  obtain ⟨es, hes, -, honly⟩ := Schema.accepts_closedObject_iff.mp h
  obtain ⟨entries, rfl, rfl⟩ := eq_map_of_data hes
  have hfields : ∀ f ∈ Server.schemas, KeepsQuoted f.2 := by
    intro f hf
    obtain ⟨name, -, rfl⟩ := List.mem_map.mp hf
    exact keepsQuoted_variableValue
  obtain ⟨es, hes, hkeep⟩ := Schema.accepts_object_iff.mp
    (accepts_quotedSection hfields hp (Server.accepts_schemas h))
  have hes : dataEntries (changedEntries id (fun _ q => q.quoteScalar) entries) = es :=
    Value.map.inj hes
  subst hes
  refine Schema.accepts_closedObject_iff.mpr ⟨_, rfl, hkeep, ?_⟩
  rw [Schema.otherEntries_eq_nil_iff] at honly ⊢
  intro e he
  have hkey : e.1 ∈ (dataEntries entries).map Prod.fst := by
    rw [← keys_quotedSection]
    exact List.mem_map_of_mem he
  obtain ⟨f, hf, hkey⟩ := List.mem_map.mp hkey
  rw [← hkey]
  exact honly f hf

/-- A table whose keys agree is accepted in quotes, if its values are. -/
theorem accepts_quotedTable {schema : Schema} (hschema : KeepsQuoted schema)
    (hp : p.isSound 0 = true) (hkeys : tableAgrees (some p) = true)
    (h : Schema.accepts [.type [.object], .others [] schema] p.data = true) :
    Schema.accepts [.type [.object], .others [] schema] p.quotedTable.data = true := by
  obtain ⟨es, hes, hkeep⟩ := Schema.accepts_allOf_iff.mp h
  obtain ⟨entries, rfl, rfl⟩ := eq_map_of_data hes
  refine Schema.accepts_allOf_iff.mpr
    ⟨dataEntries (changedEntries Written.quote (fun _ q => q.quoteScalar) entries), rfl, ?_⟩
  rw [entries_quotedTable hp]
  intro e he
  obtain ⟨f, hf, rfl⟩ := List.mem_map.mp he
  obtain ⟨k, hk⟩ := mem_entries_data hkeys f hf
  exact hschema f.2 (hkeep _ hk)

/-- A step is accepted in quotes, if the keys of its environment agree. -/
theorem accepts_quotedStep (hp : p.isSound 0 = true)
    (hkeys : tableAgrees (p.field? "environment") = true)
    (h : Schema.step.accepts p.data = true) : Schema.step.accepts p.quotedStep.data = true := by
  rw [Step.schema_eq] at h ⊢
  obtain ⟨es, hes, hkeep⟩ := Schema.accepts_object_iff.mp h
  obtain ⟨entries, rfl, rfl⟩ := eq_map_of_data hes
  refine Schema.accepts_object_iff.mpr ⟨_, rfl, ?_⟩
  refine accepts_changed (fun _ _ => isSound_quotedStepField) hp ?_ hkeep
  rintro ⟨name, schema⟩ hf q hq haccepts
  by_cases hname : name = "environment"
  · subst hname
    have hschema : schema = [.type [.object], .others [] Schema.variableValue] := by
      simpa [Step.schemas] using hf
    subst hschema
    rw [hq] at hkeys
    rw [quotedStepField_environment]
    exact accepts_quotedTable keepsQuoted_variableValue (isSound_of_field? hp hq) hkeys haccepts
  · rw [quotedStepField_of_ne hname]
    exact haccepts

/-- Steps are accepted in quotes, if the keys of their environments agree. -/
theorem accepts_quotedSteps (hp : p.isSound 0 = true) (hkeys : stepsAgree (some p) = true)
    (h : Schema.accepts [.type [.array], .items Schema.step] p.data = true) :
    Schema.accepts [.type [.array], .items Schema.step] p.quotedSteps.data = true := by
  obtain ⟨vs, hvs, hkeep⟩ := Schema.accepts_arrayOf_iff.mp h
  obtain ⟨ℓs, rfl, rfl⟩ := eq_seq_of_data hvs
  rw [items_data] at hkeep
  refine Schema.accepts_arrayOf_iff.mpr
    ⟨readItems Written.resolve ((itemParts ℓs).map quotedStep), rfl, ?_⟩
  rw [items_data, itemParts_quotedSteps hp]
  intro v hv
  obtain ⟨q, hq, rfl⟩ := List.mem_map.mp hv
  obtain ⟨r, hr, rfl⟩ := List.mem_map.mp hq
  have hagree : tableAgrees (r.field? "environment") = true := List.all_eq_true.mp hkeys r hr
  exact accepts_quotedStep (isSound_of_mem_itemParts hp r hr) hagree
    (hkeep r.data (List.mem_map_of_mem hr))

/-- A document that the schema accepts is accepted in quotes, if the keys of its node and of its
environments agree. -/
theorem accepts_quoted (hℓ : ℓ.isSound 0 = true) (hkeys : ℓ.keysAgree = true)
    (h : Schema.pipeline.accepts ℓ.data = true) : Schema.pipeline.accepts ℓ.spelled = true := by
  obtain ⟨es, hes, hrequired, hkeep⟩ := Schema.accepts_requiredObject_iff.mp h
  obtain ⟨entries, rfl, rfl⟩ := eq_map_of_data hes
  rw [keysAgree, Bool.and_eq_true] at hkeys
  refine Schema.accepts_requiredObject_iff.mpr
    ⟨dataEntries (changedEntries id quotedField entries), rfl, fun name hname => ?_, ?_⟩
  · obtain ⟨w, hw⟩ := hrequired name hname
    rw [field?_data] at hw
    obtain ⟨q, hq, -⟩ := Option.map_eq_some_iff.mp hw
    rw [field?_data_changed (fun _ _ => isSound_quotedField) hℓ, hq]
    exact ⟨_, rfl⟩
  · refine accepts_changed (fun _ _ => isSound_quotedField) hℓ ?_ hkeep
    rintro ⟨name, schema⟩ hf q hq haccepts
    have hsound := isSound_of_field? hℓ hq
    -- Five fields are changed, each in its own way, and the others are left as they are.
    by_cases hspelled : name ∈ ["version", "node", "platform", "server", "steps"]
    · simp only [List.mem_cons, List.not_mem_nil, or_false] at hspelled
      rcases hspelled with rfl | rfl | rfl | rfl | rfl
      · have hschema : schema = Schema.version := by simpa [Schema.pipelineFields] using hf
        subst hschema
        rw [quotedField_version]
        exact keepsQuoted_version q haccepts
      · have hschema : schema = [.type [.object], .others [] nodeValue] := by
          simpa [Schema.pipelineFields, nodeValue] using hf
        subst hschema
        rw [quotedField_node]
        exact accepts_quotedTable keepsQuoted_nodeValue hsound (hq ▸ hkeys.1) haccepts
      · have hschema : schema = [.type [.object], .properties Platform.schemas] := by
          simpa [Schema.pipelineFields, Platform.schemas] using hf
        subst hschema
        rw [quotedField_platform]
        exact accepts_quotedSection keepsQuoted_platform hsound haccepts
      · have hschema : schema = Schema.server := by simpa [Schema.pipelineFields] using hf
        subst hschema
        rw [quotedField_server]
        exact accepts_quotedServer hsound haccepts
      · have hschema : schema = [.type [.array], .items Schema.step] := by
          simpa [Schema.pipelineFields] using hf
        subst hschema
        rw [quotedField_steps]
        exact accepts_quotedSteps hsound (hq ▸ hkeys.2) haccepts
    · rw [quotedField_of_not_mem hspelled]
      exact haccepts

end Yaml.Layout

end PipelineManifest
