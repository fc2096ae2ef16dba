import PipelineManifest.Proofs.Pipeline.AsWritten

/-!
# `PipelineManifest.Proofs.Pipeline.SourceShape`: pipelines are read from a source nobody checked

A schema looks at the data of a document alone, but the decoder of pipelines reads version, node,
platform, server, steps and environments from the source. The two go together, because both are
readings of one layout: where the data has a mapping or a sequence, the source has one with as many
parts. So no read from the source fails for its shape, whatever keys and anchors the document has.

What can go wrong in the source is a variable. Where two keys are the same in the data and different
in the source, as `1` and `0x1` are, an entry of an environment that the schema has never seen comes
to light. If it holds no variable, that is a fault of a manifest like any other (`Outcome.Yields`).
Numbers that are too long are no matter here: a source holds what stands in the file.

* `Layout.yields_decode`: a pipeline whose data was accepted is decoded up to faults of a manifest.
* `Pipeline.yields_lint`: a pipeline whose steps have texts as names is linted in the same way.
-/

set_option autoImplicit false

namespace PipelineManifest

open Outcome (Yields satisfies_mapM)
open Yaml (Layout Tag Written)

/-! ### Variables and environments -/

/-- Every value that can be written is a variable or is rejected as malformed. -/
theorem Variable.yields_decode {v : Value} (h : v.isWritable = true) (place : String) :
    Yields (fun _ => True) (Variable.decode v place) := by
  cases v with
  | map es =>
    show Yields _ (decodeSecret es place)
    unfold decodeSecret
    split
    · rfl
    · trivial
    · rfl
  | int i =>
    rw [decode, Value.toScalarText_of_isWritable h]
    trivial
  | null | bool b | float x | str s => trivial
  | _ => rfl

theorem Step.yields_decodeEnvironment (index : Nat) {es : List (Value × Value)}
    (h : ∀ e ∈ es, e.1.isWritable = true ∧ e.2.isWritable = true) :
    Yields (fun _ => True) (decodeEnvironment index es) := by
  refine (satisfies_mapM (Q := fun _ => True) fun e he => ?_).imp fun _ _ => trivial
  rw [decodeEntry, Value.toText_of_isWritable (h e he).1, Outcome.ok_bind]
  exact (Variable.yields_decode (h e he).2 _).bind fun _ _ => trivial

/-- A node whose values can be written is decoded. -/
theorem Pipeline.yields_decodeNode {o : Option Value} {es : List (Value × Value)}
    (hfields : (Value.orEmpty o).fields = .ok es) (h : ∀ e ∈ es, e.2.isWritable = true) :
    Yields (fun _ => True) (decodeNode o) := by
  rw [decodeNode, hfields, Outcome.ok_bind]
  refine (satisfies_mapM (Q := fun _ => True) fun e he => ?_).bind fun _ _ => trivial
  dsimp only
  rw [Value.toScalarText_of_isWritable (h e he)]
  trivial

/-! ### Steps -/

namespace Yaml.Layout

variable {p ℓ : Layout} {entries : List (Written × Layout)}

/-- Where the data has a mapping as a section, the source has one too, and its entries can be
written. -/
theorem exists_fields_source {o : Option Layout}
    (h : ∀ p, o = some p → ∃ es, p.data = .map es) :
    ∃ es, (Value.orEmpty (o.map source)).fields = .ok es ∧
      ∀ e ∈ es, e.1.isWritable = true ∧ e.2.isWritable = true := by
  cases o with
  | none => exact ⟨[], rfl, by simp⟩
  | some p =>
    obtain ⟨es, hes⟩ := h p rfl
    obtain ⟨entries, rfl, -⟩ := eq_map_of_data hes
    refine ⟨Value.entries (sourceEntries entries), ?_, fun e he => ?_⟩
    · rw [Option.map_some, source_map, Value.orEmpty_map, Value.fields_map]
    · exact Value.isWritable_of_mem_entries
        (source_map entries ▸ isWritable_source (map entries)) he

/-- A step whose data was accepted is decoded, and its name is a text. -/
theorem yields_decode_step (hp : p.isSound 0 = true) (h : Schema.step.accepts p.data = true)
    {shell : String} (hshell : shell ≠ "") (index : Nat) :
    Yields (fun s => s.name.IsText) (Step.decode p.data shell index p.source) := by
  obtain ⟨s, hswt, hdraft⟩ := Step.exists_draft_of_accepts (isWellFormed_data p) h hshell index
  rw [Step.schema_eq] at h
  obtain ⟨es, hes, hkeep⟩ := Schema.accepts_object_iff.mp h
  obtain ⟨entries, rfl, rfl⟩ := eq_map_of_data hes
  -- The schema speaks of the environment in the data, and the one in the source is decoded.
  obtain ⟨fs, hfs, hwritable⟩ := exists_fields_source
    (o := (map entries).field? "environment") fun q hq => by
    have hq' : Value.field? "environment" (dataEntries entries) = some q.data := by
      rw [field?_data, hq, Option.map_some]
    obtain ⟨gs, hgs, -⟩ := Schema.accepts_allOf_iff.mp
      (hkeep ("environment", [.type [.object], .others [] Schema.variableValue])
        (by simp [Step.schemas]) _ hq')
    exact ⟨gs, hgs⟩
  rw [← field?_source hp (by rfl)] at hfs
  rw [hdraft _ (sourceEntries entries) rfl, Step.completed, hfs, Outcome.ok_bind]
  exact (Step.yields_decodeEnvironment index hwritable).bind fun _ _ => hswt.name

/-- The steps from a position on: their sources stand at the same positions, so none is missing. The
induction is on the steps that are left; `before` is the position of the first of them. -/
theorem yields_decodeSteps {shell : String} (hshell : shell ≠ "") {parts : List Layout}
    {ws : List Value} (hws : Value.items ws = parts.map source)
    (hsound : ∀ p ∈ parts, p.isSound 0 = true) (h : ∀ p ∈ parts, Schema.step.accepts p.data = true)
    (rest : List Layout) (before : Nat) (hrest : parts.drop before = rest) :
    Yields (fun ss => ∀ s ∈ ss, s.name.IsText)
      (Pipeline.decodeSteps shell (.seq ws) before (rest.map data)) := by
  induction rest generalizing before with
  | nil => exact fun s hs => nomatch hs
  | cons p rest ih =>
    obtain ⟨hp, hnext⟩ := getElem?_of_drop_eq_cons hrest
    have hmem := List.mem_of_getElem? hp
    have hw : (Value.items ws)[before]? = some p.source := by
      rw [hws, List.getElem?_map, hp]
      rfl
    rw [List.map_cons, Pipeline.decodeSteps, Value.element_seq hw, Outcome.ok_bind]
    refine (yields_decode_step (hsound p hmem) (h p hmem) hshell before).bind fun s hs => ?_
    refine (ih (before + 1) hnext).bind fun ss hss => ?_
    exact List.forall_mem_cons.mpr ⟨hs, hss⟩

theorem yields_decode_steps {o : Option Layout} (hsound : ∀ p, o = some p → p.isSound 0 = true)
    (h : ∀ p, o = some p → Schema.accepts [.type [.array], .items Schema.step] p.data = true)
    {shell : String} (hshell : shell ≠ "") {ds : List Value}
    (hds : Value.elementsOrNone (o.map data) = .ok ds) :
    Yields (fun ss => ∀ s ∈ ss, s.name.IsText)
      (Pipeline.decodeSteps shell (Pipeline.orNoItems (o.map source)) 0 ds) := by
  cases o with
  | none =>
    cases hds
    exact fun s hs => nomatch hs
  | some p =>
    obtain ⟨vs, hvs, hkeep⟩ := Schema.accepts_arrayOf_iff.mp (h p rfl)
    obtain ⟨ℓs, rfl, rfl⟩ := eq_seq_of_data hvs
    rw [items_data] at hkeep
    rw [Option.map_some, data_seq, Value.elementsOrNone_seq, items_data] at hds
    cases hds
    rw [Option.map_some, source_seq, Pipeline.orNoItems_seq]
    exact yields_decodeSteps hshell (items_source ℓs) (isSound_of_mem_itemParts (hsound _ rfl))
      (fun q hq => hkeep q.data (List.mem_map_of_mem hq)) _ 0 rfl

/-! ### Pipelines -/

/-- A pipeline whose data was accepted is decoded, or a variable of an environment is malformed; the
names of its steps are texts. -/
theorem yields_decode (hℓ : ℓ.isSound 0 = true) (h : Schema.pipeline.accepts ℓ.data = true) :
    Yields (fun q => ∀ s ∈ q.steps, s.name.IsText) (Pipeline.decode ℓ.data ℓ.source) := by
  have hwf := isWellFormed_data ℓ
  obtain ⟨es, hes, -, hkeep⟩ := Schema.accepts_requiredObject_iff.mp h
  obtain ⟨entries, rfl, rfl⟩ := eq_map_of_data hes
  have hsound : ∀ name q, (map entries).field? name = some q → q.isSound 0 = true :=
    fun _ _ hq => isSound_of_field? hℓ hq
  have haccepts : ∀ name schema, (name, schema) ∈ Schema.pipelineFields →
      ∀ q, (map entries).field? name = some q → Schema.accepts schema q.data = true := by
    intro name schema hmem q hq
    refine hkeep (name, schema) hmem _ ?_
    rw [field?_data, hq, Option.map_some]
  -- The sections of the source have the shapes of those of the data.
  have hsource : ∀ name, Tag.ofPlain name = .text →
      Value.field? name (sourceEntries entries) = ((map entries).field? name).map source :=
    fun _ hname => field?_source hℓ hname
  have hversion := decode_version_asWritten hℓ (haccepts "version" Schema.version
    (by simp [Schema.pipelineFields]))
  have hplatform := decode_platform_asWritten (hsound "platform")
    (haccepts "platform" [.type [.object], .properties Platform.schemas]
      (by simp [Schema.pipelineFields, Platform.schemas]))
  have hserver := decode_server_asWritten (hsound "server")
    (haccepts "server" Schema.server (by simp [Schema.pipelineFields]))
  obtain ⟨node, hnode, hwritable⟩ := exists_fields_source
    (o := (map entries).field? "node") fun q hq => by
    obtain ⟨fs, hfs, -⟩ := Schema.accepts_allOf_iff.mp
      (haccepts "node" [.type [.object], .others [] nodeValue]
        (by simp [Schema.pipelineFields, nodeValue]) q hq)
    exact ⟨fs, hfs⟩
  rw [data_map] at hwf h
  obtain ⟨p, ds, -, hds, hdraft⟩ := Pipeline.exists_draft_of_accepts hwf h
  rw [data_map, source_map, hdraft _ (sourceEntries entries) rfl, Pipeline.completed,
    hsource "platform" rfl, hplatform, Outcome.ok_bind, hversion, Outcome.ok_bind,
    hsource "node" rfl, hsource "server" rfl, hserver, hsource "steps" rfl]
  refine (Pipeline.yields_decodeNode hnode fun e he => (hwritable e he).2).bind fun _ _ => ?_
  rw [Outcome.ok_bind]
  exact (yields_decode_steps (hsound "steps")
    (haccepts "steps" [.type [.array], .items Schema.step] (by simp [Schema.pipelineFields]))
    (defaultShell_ne_empty _) (by rw [← field?_data]; exact hds)).bind fun ss hss => hss

end Yaml.Layout

namespace Pipeline

/-- Names that are texts can be compared, so a list of steps either has no duplicate or breaks a
lint rule. -/
theorem yields_checkUnique (seen : List Value) {steps : List Step}
    (h : ∀ s ∈ steps, s.name.IsText) : Yields (fun _ => True) (checkUnique seen steps) := by
  induction steps generalizing seen with
  | nil => trivial
  | cons s steps ih =>
    obtain ⟨name, hname⟩ := h s List.mem_cons_self
    rw [checkUnique, hname]
    show Yields _ (if seen.any (Value.sameKey · (.str name)) then _ else _)
    split
    · rfl
    · exact ih _ fun t ht => h t (List.mem_cons_of_mem _ ht)

theorem yields_checkAttached (steps : List Step) :
    Yields (fun _ => True) (checkAttached steps) := by
  rw [checkAttached]
  split
  · rfl
  · trivial

theorem yields_checkServer (s : Server) : Yields (fun _ => True) (checkServer s) := by
  rw [checkServer]
  split_ifs
  · rfl
  · rfl
  · rfl
  · trivial

/-- A pipeline whose steps have texts as names keeps the lint rules or breaks one of them. -/
theorem yields_lint {p : Pipeline} (h : ∀ s ∈ p.steps, s.name.IsText) :
    Yields (fun _ => True) p.lint := by
  have hnamed : Yields (fun _ => True) (checkNamed p.steps) := by
    rw [checkNamed]
    split
    · trivial
    · rfl
  refine hnamed.bind fun _ _ => (yields_checkUnique [] h).bind fun _ _ => ?_
  exact (yields_checkAttached p.steps).bind fun _ _ => yields_checkServer p.server

end Pipeline

end PipelineManifest
