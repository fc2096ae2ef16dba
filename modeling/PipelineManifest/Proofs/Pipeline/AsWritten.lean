import PipelineManifest.Proofs.Pipeline.OneView

/-!
# `PipelineManifest.Proofs.Pipeline.AsWritten`: what of a pipeline is read as it is written

A pipeline can be decoded from the data of a document alone. With the source the same pipeline comes
out, but for the fields that keep their spelling: they hold the texts that stand in the file. Which
part of the file a field is read from is a matter of names, and for steps of their positions.

* `Layout.text`, `Layout.toVariable`: a scalar and a variable as they are written.
* `Pipeline.asWritten`: a pipeline with its spelled fields as they are written in a document.
* `Layout.decode_asWritten`: what the source adds to the data.
-/

set_option autoImplicit false

namespace PipelineManifest

open Yaml (Layout Written Tag)

namespace Yaml.Layout

/-! ### Parts of a document as they are written -/

/-- A scalar as it is written; containers have no text. -/
def text : Layout → String
  | scalar w => w.text
  | _ => ""

/-- The field of a mapping, or nothing to read where it is left out. -/
def sectionAt (ℓ : Layout) (name : String) : Layout := (ℓ.field? name).getD (map [])

/-- The text of a field as it is written, which is empty where the field is left out. -/
def textAt (ℓ : Layout) (name : String) : String := ((ℓ.field? name).map text).getD ""

/-- A variable as it is written: null is absent, every other scalar a literal, and a mapping a
secret. -/
def toVariable : Layout → Variable
  | scalar w => if w.tag = .null then .absent else .literal w.text
  | ℓ => .secret (ℓ.textAt Variable.secretField)

/-- The variable of a field as it is written, which is absent where the field is left out. -/
def variableAt (ℓ : Layout) (name : String) : Variable :=
  ((ℓ.field? name).map toVariable).getD .absent

/-- The rows of a table under their keys as they are written. -/
def rows : Layout → List (Value × Layout)
  | map entries => leftParts entries
  | _ => []

/-- The part of a sequence at a position. -/
def itemAt (ℓ : Layout) (index : Nat) : Layout :=
  match ℓ with
  | seq items => ((itemParts items)[index]?).getD (map [])
  | _ => map []

end Yaml.Layout

/-- A server as it is written in a section. -/
def Server.asWritten (ℓ : Layout) : Server where
  host := ℓ.variableAt "host"
  user := ℓ.variableAt "user"
  password := ℓ.variableAt "password"
  sshKey := ℓ.variableAt "ssh_key"

/-- A platform as it is written in a section. -/
def Platform.asWritten (ℓ : Layout) : Platform where
  os := .str (ℓ.textAt "os")
  arch := .str (ℓ.textAt "arch")
  variant := .str (ℓ.textAt "variant")
  version := .str (ℓ.textAt "version")

/-- A step with its environment as it is written; all else is left as it is. -/
def Step.asWritten (s : Step) (ℓ : Layout) : Step :=
  { s with environment := (ℓ.sectionAt "environment").rows.map fun e => (e.1, e.2.toVariable) }

/-- A pipeline with its spelled fields as they are written in a document; all else is left as it
is. A step has its environment from the part at the same position. -/
def Pipeline.asWritten (p : Pipeline) (ℓ : Layout) : Pipeline :=
  { p with
    version := .str (ℓ.textAt "version")
    node := .map ((ℓ.sectionAt "node").rows.map fun e => (e.1, .str e.2.text))
    platform := Platform.asWritten (ℓ.sectionAt "platform")
    server := Server.asWritten (ℓ.sectionAt "server")
    steps := p.steps.mapIdx fun i s => s.asWritten ((ℓ.sectionAt "steps").itemAt i) }

namespace Yaml.Layout

variable {p ℓ : Layout} {entries : List (Written × Layout)}

/-! ### Scalars and variables -/

/-- The source of a scalar that is not null is its text. -/
theorem source_eq_str (h : p.data.isScalar = true) (hnull : p.data ≠ .null) :
    p.source = .str p.text := by
  obtain ⟨w, rfl⟩ := eq_scalar_of_data h
  show w.spell = .str w.text
  rw [Written.spell, if_neg]
  intro htag
  refine hnull ?_
  show w.resolve = .null
  rw [Written.resolve, htag]
  rfl

/-- What stands for a text is that text as it is written. -/
theorem text_of_data_eq_str {s : String} (h : p.data = .str s) : p.text = s := by
  have hscalar : p.data.isScalar = true := by
    rw [h]
    rfl
  obtain ⟨w, rfl⟩ := eq_scalar_of_data hscalar
  exact (Written.resolve_eq_str_iff.mp h).2

/-- The field of a section that holds no null and no container is read from the source as it is
written. -/
theorem getD_source_eq (hp : (map entries).isSound 0 = true) {name : String}
    (hname : Tag.ofPlain name = .text)
    (h : ∀ v, Value.field? name (dataEntries entries) = some v → v.isScalar = true ∧ v ≠ .null) :
    (Value.field? name (sourceEntries entries)).getD (.str "")
      = .str ((map entries).textAt name) := by
  rw [field?_data] at h
  rw [field?_source hp hname, textAt]
  cases hq : (map entries).field? name with
  | none => rfl
  | some q =>
    obtain ⟨hscalar, hnull⟩ := h q.data (by rw [hq]; rfl)
    exact source_eq_str hscalar hnull

/-- A text is read from the data as it is written. -/
theorem getD_data_eq {name : String}
    (h : ∀ v, Value.field? name (dataEntries entries) = some v → ∃ s, v = .str s) :
    (Value.field? name (dataEntries entries)).getD (.str "")
      = .str ((map entries).textAt name) := by
  rw [field?_data] at h ⊢
  rw [textAt]
  cases hq : (map entries).field? name with
  | none => rfl
  | some q =>
    obtain ⟨s, hs⟩ := h q.data (by rw [hq]; rfl)
    rw [Option.map_some, Option.map_some, Option.getD_some, Option.getD_some, hs,
      text_of_data_eq_str hs]

/-- A variable is decoded from the source as it is written. -/
theorem decode_toVariable (hp : p.isSound 0 = true)
    (h : Schema.variableValue.accepts p.data = true) (place : String) :
    Variable.decode p.source place = .ok p.toVariable := by
  rw [Schema.accepts_variableValue_iff] at h
  cases p with
  | scalar w =>
    show Variable.decode w.spell place = .ok (if w.tag = .null then .absent else .literal w.text)
    rw [Written.spell]
    split
    · rfl
    · rfl
  | seq items => cases h
  | map entries =>
    show Variable.decode (.map (sourceEntries entries)) place
      = .ok (.secret ((map entries).textAt Variable.secretField))
    cases h with
    | @secret _ s only name =>
      have hname : Value.field? "from_secret" (dataEntries entries) = some (.str s) := name
      rw [field?_data] at hname
      obtain ⟨q, hq, hs⟩ := Option.map_eq_some_iff.mp hname
      have hsource : Value.field? "from_secret" (sourceEntries entries) = some (.str s) := by
        rw [field?_source hp rfl, hq, Option.map_some,
          source_eq_str (by rw [hs]; rfl) (by simp [hs]), text_of_data_eq_str hs]
      rw [Variable.decode, Variable.decodeSecret, Variable.secretField, hsource, textAt, hq,
        Option.map_some, Option.getD_some, text_of_data_eq_str hs]
  | back n => cases h

/-- The version is decoded from the source as it is written. -/
theorem decode_version_asWritten (hp : (map entries).isSound 0 = true)
    (h : ∀ q, (map entries).field? "version" = some q → Schema.version.accepts q.data = true) :
    Pipeline.decodeVersion (Value.field? "version" (sourceEntries entries))
      = .ok (.str ((map entries).textAt "version")) := by
  rw [field?_source hp rfl, textAt]
  cases hq : (map entries).field? "version" with
  | none => rfl
  | some q =>
    obtain ⟨hscalar, hnull⟩ := isScalar_of_accepts_version (h q hq)
    rw [Option.map_some, source_eq_str hscalar hnull]
    rfl

/-! ### Sections -/

/-- The platform is decoded from the source as it is written. -/
theorem decode_platform_asWritten {o : Option Layout}
    (hsound : ∀ p, o = some p → p.isSound 0 = true)
    (h : ∀ p, o = some p → Schema.accepts [.type [.object], .properties Platform.schemas]
      p.data = true) :
    Platform.decode (o.map source) = .ok (Platform.asWritten (o.getD (map []))) := by
  cases o with
  | none => rfl
  | some p =>
    have hp := hsound p rfl
    obtain ⟨es, hes, hkeep⟩ := Schema.accepts_object_iff.mp (h p rfl)
    obtain ⟨entries, rfl, rfl⟩ := eq_map_of_data hes
    have hfield : ∀ name schema, (name, schema) ∈ Platform.schemas → Tag.ofPlain name = .text →
        (Value.field? name (sourceEntries entries)).getD (.str "")
          = .str ((map entries).textAt name) := by
      intro name schema hmem hname
      refine getD_source_eq hp hname fun v hv => ?_
      exact isScalar_of_accepts_platform (name, schema) hmem (hkeep (name, schema) hmem v hv)
    show Platform.decode (some (.map (sourceEntries entries))) = _
    simp only [Platform.decode, Value.orEmpty_map, Value.getD, Value.get_map, Outcome.ok_bind,
      hfield "os" Schema.string (by simp [Platform.schemas]) rfl,
      hfield "arch" Schema.string (by simp [Platform.schemas]) rfl,
      hfield "variant" Schema.string (by simp [Platform.schemas]) rfl,
      hfield "version" Schema.version (by simp [Platform.schemas]) rfl]
    rfl

/-- The system of a platform is a text, which the data holds as it is written. -/
theorem os_of_decode_platform {o : Option Layout}
    (h : ∀ p, o = some p → Schema.accepts [.type [.object], .properties Platform.schemas]
      p.data = true) {platform : Platform}
    (hplatform : Platform.decode (o.map data) = .ok platform) :
    platform.os = .str ((o.getD (map [])).textAt "os") := by
  cases o with
  | none =>
    cases hplatform
    rfl
  | some p =>
    obtain ⟨es, hes, hkeep⟩ := Schema.accepts_object_iff.mp (h p rfl)
    obtain ⟨entries, rfl, rfl⟩ := eq_map_of_data hes
    have hos : (Value.field? "os" (dataEntries entries)).getD (.str "")
        = .str ((map entries).textAt "os") := by
      refine getD_data_eq fun v hv => Schema.accepts_string_iff.mp ?_
      exact hkeep ("os", Schema.string) (by simp [Platform.schemas]) v hv
    rw [Option.map_some, data_map] at hplatform
    simp only [Platform.decode, Value.orEmpty_map, Value.getD, Value.get_map, Outcome.ok_bind,
      Outcome.pure_eq_ok, hos] at hplatform
    obtain ⟨_, -, hplatform⟩ := Outcome.bind_eq_ok_iff.mp hplatform
    cases hplatform
    rfl

/-- The server is decoded from the source as it is written. -/
theorem decode_server_asWritten {o : Option Layout}
    (hsound : ∀ p, o = some p → p.isSound 0 = true)
    (h : ∀ p, o = some p → Schema.server.accepts p.data = true) :
    Server.decode (o.map source) = .ok (Server.asWritten (o.getD (map []))) := by
  cases o with
  | none => rfl
  | some p =>
    have hp := hsound p rfl
    obtain ⟨es, hes, hkeep⟩ :=
      Schema.accepts_object_iff.mp (Server.accepts_schemas (h p rfl))
    obtain ⟨entries, rfl, rfl⟩ := eq_map_of_data hes
    have hfield : ∀ name ∈ ["host", "user", "password", "ssh_key"], Tag.ofPlain name = .text →
        ∀ place, Variable.decodeField (Value.field? name (sourceEntries entries)) place
          = .ok ((map entries).variableAt name) := by
      intro name hmem hname place
      have hkeep := hkeep (name, Schema.variableValue) (List.mem_map_of_mem hmem)
      rw [field?_data] at hkeep
      rw [field?_source hp hname, variableAt]
      cases hq : (map entries).field? name with
      | none => rfl
      | some q =>
        rw [hq] at hkeep
        exact decode_toVariable (isSound_of_field? hp hq) (hkeep _ rfl) place
    show Server.decode (some (.map (sourceEntries entries))) = _
    simp only [Server.decode, Value.orEmpty_map, Value.get_map, Outcome.ok_bind,
      hfield "host" (by simp) rfl, hfield "user" (by simp) rfl, hfield "password" (by simp) rfl,
      hfield "ssh_key" (by simp) rfl]
    rfl

/-! ### The node and the environments -/

/-- What a table holds in the source are its rows. They are left in the data as well, where the keys
agree, so its schema holds of them. -/
theorem accepts_rows {schema : Schema} (hkeys : tableAgrees (some p) = true)
    (h : Schema.accepts [.type [.object], .others [] schema] p.data = true) :
    ∃ entries, p = map entries ∧ Value.entries (sourceEntries entries)
        = p.rows.map (fun e => (e.1, e.2.source)) ∧
      ∀ e ∈ p.rows, schema.accepts e.2.data = true := by
  obtain ⟨es, hes, hkeep⟩ := Schema.accepts_allOf_iff.mp h
  obtain ⟨entries, rfl, rfl⟩ := eq_map_of_data hes
  refine ⟨entries, rfl, entries_source entries, fun e he => ?_⟩
  obtain ⟨k, hk⟩ := mem_entries_data hkeys e he
  exact hkeep _ hk

/-- The keys of rows are texts or null. -/
theorem isWritable_of_mem_rows {e : Value × Layout} (he : e ∈ p.rows) : e.1.isWritable = true := by
  cases p with
  | map entries =>
    obtain ⟨⟨f, hf, hkey⟩, -⟩ := Value.mem_of_mem_ofEntries he
    obtain ⟨x, -, rfl⟩ := List.mem_map.mp hf
    exact hkey ▸ x.1.isWritable_spell
  | _ => cases he

/-- The node is decoded from the source as it is written. -/
theorem decode_node_asWritten {o : Option Layout} (hkeys : tableAgrees o = true)
    (h : ∀ p, o = some p → Schema.accepts [.type [.object], .others [] nodeValue] p.data = true) :
    Pipeline.decodeNode (o.map source)
      = .ok (.map ((o.getD (map [])).rows.map fun e => (e.1, .str e.2.text))) := by
  cases o with
  | none => rfl
  | some p =>
    obtain ⟨entries, rfl, hentries, hkeep⟩ := accepts_rows hkeys (h p rfl)
    have htexts : ∀ e ∈ (map entries).rows, e.2.source = .str e.2.text := by
      intro e he
      obtain ⟨hscalar, hnull⟩ := isScalar_of_accepts_nodeValue (hkeep e he)
      exact source_eq_str hscalar hnull
    show Pipeline.decodeNode (some (.map (sourceEntries entries))) = _
    rw [Pipeline.decodeNode, Value.orEmpty_map, Value.fields_map, hentries, Option.getD_some,
      Outcome.ok_bind, List.mapM_map, Outcome.mapM_ok (g := fun e => (e.1, .str e.2.text))]
    · rfl
    · intro e he
      rw [Function.comp_apply]
      dsimp only
      rw [htexts e he]
      rfl

/-- An environment is decoded from the source as it is written. -/
theorem environment_asWritten {o : Option Layout} (hsound : ∀ p, o = some p → p.isSound 0 = true)
    (hkeys : tableAgrees o = true)
    (h : ∀ p, o = some p → Schema.accepts [.type [.object], .others [] Schema.variableValue]
      p.data = true) (index : Nat) :
    ∃ es, Value.orEmpty (o.map source) = .map es ∧
      Step.decodeEnvironment index (Value.entries es)
        = .ok ((o.getD (map [])).rows.map fun e => (e.1, e.2.toVariable)) := by
  cases o with
  | none => exact ⟨[], rfl, rfl⟩
  | some p =>
    obtain ⟨entries, rfl, hentries, hkeep⟩ := accepts_rows hkeys (h p rfl)
    refine ⟨sourceEntries entries, Value.orEmpty_map _, ?_⟩
    rw [hentries, Option.getD_some, Step.decodeEnvironment, List.mapM_map]
    refine Outcome.mapM_ok fun e he => ?_
    rw [Function.comp_apply, Step.decodeEntry,
      Value.toText_of_isWritable (isWritable_of_mem_rows he),
      Outcome.ok_bind, decode_toVariable (isSound_of_mem_leftParts (hsound _ rfl) e he)
        (hkeep e he)]
    rfl

/-! ### The steps -/

/-- A step is decoded from the source with its environment as it is written. From the data the same
step is decoded, but for the environment, if it is decoded at all. -/
theorem decode_step_asWritten (hp : p.isSound 0 = true)
    (hkeys : tableAgrees (p.field? "environment") = true) (h : Schema.step.accepts p.data = true)
    {shell : String} (hshell : shell ≠ "") (index : Nat) :
    ∃ s : Step, Step.decode p.data shell index p.source = .ok (s.asWritten p) ∧
      ∀ s₀, Step.decode p.data shell index p.data = .ok s₀ → s₀.asWritten p = s.asWritten p := by
  obtain ⟨s, -, hdraft⟩ := Step.exists_draft_of_accepts (isWellFormed_data p) h hshell index
  rw [Step.schema_eq] at h
  obtain ⟨es, hes, hkeep⟩ := Schema.accepts_object_iff.mp h
  obtain ⟨entries, rfl, rfl⟩ := eq_map_of_data hes
  have hkeep := hkeep ("environment", [.type [.object], .others [] Schema.variableValue])
    (by simp [Step.schemas])
  obtain ⟨fs, hfs, henvironment⟩ := environment_asWritten (fun q hq => isSound_of_field? hp hq)
    hkeys (fun q hq => hkeep _ (by rw [field?_data, hq, Option.map_some])) index
  rw [← field?_source hp (by rfl)] at hfs
  refine ⟨s, ?_, fun s₀ hs₀ => ?_⟩
  · rw [hdraft _ (sourceEntries entries) rfl, Step.completed, hfs, Value.fields_map,
      Outcome.ok_bind, henvironment]
    rfl
  · rw [hdraft _ (dataEntries entries) rfl, Step.completed] at hs₀
    obtain ⟨_, -, hs₀⟩ := Outcome.bind_eq_ok_iff.mp hs₀
    obtain ⟨_, -, hs₀⟩ := Outcome.bind_eq_ok_iff.mp hs₀
    cases hs₀
    rfl

/-- The steps from a position on. The induction is on the steps that are left; `before` is the
position of the first of them. -/
theorem decodeSteps_asWritten {shell : String} (hshell : shell ≠ "") {parts : List Layout}
    {vs ws : List Value} (hvs : Value.items vs = parts.map data)
    (hws : Value.items ws = parts.map source) (hsound : ∀ p ∈ parts, p.isSound 0 = true)
    (hkeys : ∀ p ∈ parts, tableAgrees (p.field? "environment") = true)
    (h : ∀ p ∈ parts, Schema.step.accepts p.data = true) (rest : List Layout) (before : Nat)
    (hrest : parts.drop before = rest) :
    ∃ steps : List Step,
      Pipeline.decodeSteps shell (.seq ws) before (rest.map data)
        = .ok (steps.mapIdx fun i s => s.asWritten (rest[i]?.getD (map []))) ∧
      ∀ steps₀, Pipeline.decodeSteps shell (.seq vs) before (rest.map data) = .ok steps₀ →
        (steps₀.mapIdx fun i s => s.asWritten (rest[i]?.getD (map [])))
          = steps.mapIdx fun i s => s.asWritten (rest[i]?.getD (map [])) := by
  induction rest generalizing before with
  | nil =>
    refine ⟨[], rfl, fun steps₀ h₀ => ?_⟩
    cases h₀
    rfl
  | cons p rest ih =>
    obtain ⟨hp, hnext⟩ := getElem?_of_drop_eq_cons hrest
    have hmem := List.mem_of_getElem? hp
    have hv : (Value.items vs)[before]? = some p.data := by
      rw [hvs, List.getElem?_map, hp]
      rfl
    have hw : (Value.items ws)[before]? = some p.source := by
      rw [hws, List.getElem?_map, hp]
      rfl
    obtain ⟨s, hs, hsame⟩ :=
      decode_step_asWritten (hsound p hmem) (hkeys p hmem) (h p hmem) hshell before
    obtain ⟨ss, hss, hsames⟩ := ih (before + 1) hnext
    refine ⟨s :: ss, ?_, fun steps₀ h₀ => ?_⟩
    · rw [List.map_cons, Pipeline.decodeSteps, Value.element_seq hw, Outcome.ok_bind, hs,
        Outcome.ok_bind, hss, Outcome.ok_bind, List.mapIdx_cons]
      rfl
    · rw [List.map_cons, Pipeline.decodeSteps, Value.element_seq hv, Outcome.ok_bind] at h₀
      obtain ⟨s₀, hs₀, h₀⟩ := Outcome.bind_eq_ok_iff.mp h₀
      obtain ⟨ss₀, hss₀, h₀⟩ := Outcome.bind_eq_ok_iff.mp h₀
      cases h₀
      rw [List.mapIdx_cons, List.mapIdx_cons]
      exact congrArg₂ List.cons (hsame s₀ hs₀) (hsames ss₀ hss₀)

/-- All steps of an accepted document. -/
theorem decode_steps_asWritten {o : Option Layout} (hsound : ∀ p, o = some p → p.isSound 0 = true)
    (hkeys : stepsAgree o = true)
    (h : ∀ p, o = some p → Schema.accepts [.type [.array], .items Schema.step] p.data = true)
    {shell : String} (hshell : shell ≠ "") {ds : List Value}
    (hds : Value.elementsOrNone (o.map data) = .ok ds) :
    ∃ steps : List Step,
      Pipeline.decodeSteps shell (Pipeline.orNoItems (o.map source)) 0 ds
        = .ok (steps.mapIdx fun i s => s.asWritten ((o.getD (map [])).itemAt i)) ∧
      ∀ steps₀, Pipeline.decodeSteps shell (Pipeline.orNoItems (o.map data)) 0 ds = .ok steps₀ →
        (steps₀.mapIdx fun i s => s.asWritten ((o.getD (map [])).itemAt i))
          = steps.mapIdx fun i s => s.asWritten ((o.getD (map [])).itemAt i) := by
  cases o with
  | none =>
    cases hds
    refine ⟨[], rfl, fun steps₀ h₀ => ?_⟩
    cases h₀
    rfl
  | some p =>
    obtain ⟨vs, hvs, hkeep⟩ := Schema.accepts_arrayOf_iff.mp (h p rfl)
    obtain ⟨ℓs, rfl, rfl⟩ := eq_seq_of_data hvs
    rw [items_data] at hkeep
    rw [Option.map_some, data_seq, Value.elementsOrNone_seq, items_data] at hds
    cases hds
    rw [Option.map_some, Option.map_some, data_seq, source_seq, Pipeline.orNoItems_seq,
      Pipeline.orNoItems_seq]
    exact decodeSteps_asWritten hshell (items_data ℓs) (items_source ℓs)
      (isSound_of_mem_itemParts (hsound _ rfl)) (List.all_eq_true.mp hkeys)
      (fun q hq => hkeep q.data (List.mem_map_of_mem hq)) _ 0 rfl

/-! ### The pipeline -/

/-- A pipeline is decoded from data and source with its spelled fields as they are written. From the
data alone the same pipeline is decoded, but for these fields, if it is decoded at all. -/
theorem decode_asWritten (hℓ : ℓ.isSound 0 = true) (hkeys : ℓ.keysAgree = true)
    (h : Schema.pipeline.accepts ℓ.data = true) :
    ∃ p : Pipeline, Pipeline.decode ℓ.data ℓ.source = .ok (p.asWritten ℓ) ∧
      ∀ p₀, Pipeline.decode ℓ.data .null = .ok p₀ → p₀.asWritten ℓ = p.asWritten ℓ := by
  have hwf := isWellFormed_data ℓ
  obtain ⟨es, hes, -, hkeep⟩ := Schema.accepts_requiredObject_iff.mp h
  obtain ⟨entries, rfl, rfl⟩ := eq_map_of_data hes
  rw [keysAgree, Bool.and_eq_true] at hkeys
  have hsound : ∀ name q, (map entries).field? name = some q → q.isSound 0 = true :=
    fun _ _ hq => isSound_of_field? hℓ hq
  have hsource : ∀ name, Tag.ofPlain name = .text →
      Value.field? name (sourceEntries entries) = ((map entries).field? name).map source :=
    fun _ hname => field?_source hℓ hname
  have haccepts : ∀ name schema, (name, schema) ∈ Schema.pipelineFields →
      ∀ q, (map entries).field? name = some q → Schema.accepts schema q.data = true := by
    intro name schema hmem q hq
    refine hkeep (name, schema) hmem _ ?_
    rw [field?_data, hq, Option.map_some]
  -- The fields that are spelled, one after the other.
  have hversion := decode_version_asWritten hℓ
    (haccepts "version" Schema.version (by simp [Schema.pipelineFields]))
  have hplatformSchema := haccepts "platform" [.type [.object], .properties Platform.schemas]
    (by simp [Schema.pipelineFields, Platform.schemas])
  have hnode := decode_node_asWritten hkeys.1 (haccepts "node"
    [.type [.object], .others [] nodeValue] (by simp [Schema.pipelineFields, nodeValue]))
  have hplatform := decode_platform_asWritten (hsound "platform") hplatformSchema
  have hserver := decode_server_asWritten (hsound "server")
    (haccepts "server" Schema.server (by simp [Schema.pipelineFields]))
  have hstepsSchema := haccepts "steps" [.type [.array], .items Schema.step]
    (by simp [Schema.pipelineFields])
  rw [data_map] at hwf h
  obtain ⟨p, ds, -, hds, hdraft⟩ := Pipeline.exists_draft_of_accepts hwf h
  obtain ⟨steps, hsteps, hsame⟩ := decode_steps_asWritten (hsound "steps") hkeys.2 hstepsSchema
    (defaultShell_ne_empty
      (Platform.asWritten (((map entries).field? "platform").getD (map []))).os)
    (by rw [← field?_data]; exact hds)
  rw [data_map, source_map]
  refine ⟨{ p with steps }, ?_, fun p₀ hp₀ => ?_⟩
  · rw [hdraft _ (sourceEntries entries) rfl, Pipeline.completed, hsource "platform" rfl, hplatform,
      Outcome.ok_bind, hversion, Outcome.ok_bind, hsource "node" rfl, hnode, Outcome.ok_bind,
      hsource "server" rfl, hserver, Outcome.ok_bind, hsource "steps" rfl, hsteps]
    rfl
  · rw [hdraft _ (dataEntries entries) rfl, Pipeline.completed] at hp₀
    obtain ⟨platform, hplatform₀, hp₀⟩ := Outcome.bind_eq_ok_iff.mp hp₀
    obtain ⟨_, -, hp₀⟩ := Outcome.bind_eq_ok_iff.mp hp₀
    obtain ⟨_, -, hp₀⟩ := Outcome.bind_eq_ok_iff.mp hp₀
    obtain ⟨_, -, hp₀⟩ := Outcome.bind_eq_ok_iff.mp hp₀
    obtain ⟨steps₀, hsteps₀, hp₀⟩ := Outcome.bind_eq_ok_iff.mp hp₀
    cases hp₀
    -- Both views name the same shell for steps that name none.
    have hos := os_of_decode_platform hplatformSchema (by rw [← field?_data]; exact hplatform₀)
    rw [field?_data entries "steps", show defaultShell platform.os
      = defaultShell (Platform.asWritten (((map entries).field? "platform").getD (map []))).os
      from congrArg defaultShell hos] at hsteps₀
    exact congrArg (fun ss => { p.asWritten (map entries) with steps := ss }) (hsame steps₀ hsteps₀)

/-- What is written does not change when it is written again. -/
theorem asWritten_asWritten (p : Pipeline) (ℓ : Layout) :
    (p.asWritten ℓ).asWritten ℓ = p.asWritten ℓ := by
  simp only [Pipeline.asWritten, List.mapIdx_mapIdx, Step.asWritten, Function.comp_def]

end Yaml.Layout

end PipelineManifest
