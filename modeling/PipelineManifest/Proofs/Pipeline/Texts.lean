import PipelineManifest.Proofs.Pipeline.Decode
import PipelineManifest.Proofs.Pipeline.Fields
import PipelineManifest.Resource

/-!
# `PipelineManifest.Proofs.Pipeline.Texts`: the texts of a pipeline

Names, shells, commands and the lists of steps that others depend on are read from the data of a
document, which the schema has accepted. So they are texts in every pipeline that was decoded,
whatever the source of the document looks like.

* `Step.HoldsTexts`, `Pipeline.HoldsTexts`: the fields that hold texts.
* `Step.holdsTexts_of_decode`, `Pipeline.holdsTexts_of_ofDocumentLinted`: decoded steps and
  pipelines.
-/

set_option autoImplicit false

namespace PipelineManifest

open Value (field?)

/-- A list that was read from an accepted field is one of texts. -/
theorem Value.isTexts_of_elementsOrNone {o : Option Value}
    (h : ∀ w, o = some w → Schema.stringList.accepts w = true) {vs : List Value}
    (hvs : Value.elementsOrNone o = .ok vs) : (Value.seq vs).IsTexts := by
  obtain ⟨ss, hss⟩ := Value.elementsOrNone_of_accepts h
  rw [hss, Except.ok.injEq] at hvs
  exact ⟨ss, congrArg Value.seq hvs.symm⟩

namespace Step

/-- A step whose name, shell and lists are texts. -/
structure HoldsTexts (s : Step) : Prop where
  name : s.name.IsText
  shell : s.shell.IsText
  dependsOn : s.dependsOn.IsTexts
  commands : s.commands.IsTexts

/-- A step is decoded from accepted data to one with texts, whatever its source. -/
theorem holdsTexts_of_decode {data source : Value} {shell : String} {index : Nat} {s : Step}
    (haccepts : Schema.step.accepts data = true) (h : decode data shell index source = .ok s) :
    s.HoldsTexts := by
  obtain ⟨es, fs, rfl, -, reads⟩ := reads_of_decode h
  rw [schema_eq] at haccepts
  obtain ⟨_, ⟨⟩, hfields⟩ := Schema.accepts_object_iff.mp haccepts
  have hfield : ∀ name schema, (name, schema) ∈ schemas → ∀ w, field? name es = some w →
      Schema.accepts schema w = true := fun _ _ hf w hw => hfields _ hf w hw
  obtain ⟨dependsOn, hdependsOn, hneeds⟩ := reads.dependsOn
  obtain ⟨commands, hcommands, hlines⟩ := reads.commands
  refine ⟨?_, ?_, ?_, ?_⟩
  · rw [reads.name]
    exact Value.getD_field? ⟨"", rfl⟩ fun w hw =>
      Schema.accepts_string_iff.mp (hfield "name" Schema.string (by simp [schemas]) w hw)
  · rw [reads.shell]
    cases hown : (field? "shell" es).filter Value.isTruthy with
    | none => exact ⟨shell, rfl⟩
    | some w =>
      exact Schema.accepts_string_iff.mp
        (hfield "shell" Schema.string (by simp [schemas]) w (Option.eq_some_of_filter_eq_some hown))
  · rw [hneeds]
    exact Value.isTexts_of_elementsOrNone (hfield "depends_on" _ (by simp [schemas])) hdependsOn
  · rw [hlines]
    exact Value.isTexts_of_elementsOrNone (hfield "commands" _ (by simp [schemas])) hcommands

end Step

namespace Pipeline

/-- A pipeline whose name, version, workspace and steps are texts, and whose depth is a whole
number. -/
structure HoldsTexts (p : Pipeline) : Prop where
  name : p.name.IsText
  version : p.version.IsText
  path : p.workspace.path.IsText
  depth : Schema.IsDepth p.clone.depth
  steps : ∀ s ∈ p.steps, s.HoldsTexts

/-- Steps are decoded one by one from accepted data. -/
theorem holdsTexts_of_decodeSteps {shell : String} {sources : Value} {index : Nat}
    {vs : List Value} {ss : List Step} (haccepts : ∀ v ∈ vs, Schema.step.accepts v = true)
    (h : decodeSteps shell sources index vs = .ok ss) : ∀ s ∈ ss, s.HoldsTexts := by
  induction vs generalizing index ss with
  | nil =>
    cases h
    simp
  | cons v vs ih =>
    rw [List.forall_mem_cons] at haccepts
    obtain ⟨source, -, h⟩ := Outcome.bind_eq_ok_iff.mp h
    obtain ⟨s, hs, h⟩ := Outcome.bind_eq_ok_iff.mp h
    obtain ⟨rest, hrest, h⟩ := Outcome.bind_eq_ok_iff.mp h
    cases h
    rw [List.forall_mem_cons]
    exact ⟨Step.holdsTexts_of_decode haccepts.1 hs, ih haccepts.2 hrest⟩

theorem isText_of_decodeVersion {o : Option Value} {v : Value} (h : decodeVersion o = .ok v) :
    v.IsText := by
  rw [decodeVersion.eq_def] at h
  split at h
  · cases h
    exact ⟨"", rfl⟩
  · cases h
    exact ⟨"", rfl⟩
  · obtain ⟨text, -, h⟩ := Outcome.bind_eq_ok_iff.mp h
    cases h
    exact ⟨text, rfl⟩

/-- A document that the schema accepts is decoded to a pipeline with texts. -/
theorem holdsTexts_of_ofDocumentLinted {d : Document} {p : Pipeline}
    (h : ofDocumentLinted d = .ok p) : p.HoldsTexts := by
  obtain ⟨haccepts, hdecode, -⟩ := ofDocumentLinted_eq_ok_iff.mp h
  obtain ⟨es, fs, hdata, -, reads⟩ := reads_of_decode hdecode
  rw [hdata] at haccepts
  obtain ⟨-, hfield⟩ := fields_of_accepts haccepts
  refine ⟨?_, ?_, ?_, ?_, ?_⟩
  · obtain ⟨text, htext, -⟩ := Schema.accepts_nonEmptyString_iff.mp
      (hfield "name" _ (by simp [Schema.pipelineFields]) _ reads.name)
    exact ⟨text, htext⟩
  · exact isText_of_decodeVersion reads.version
  · obtain ⟨w, hw, hworkspace⟩ := Workspace.decode_of_accepts fun v hv =>
      hfield "workspace" _ (by simp [Schema.pipelineFields, Workspace.schemas]) v hv
    rw [reads.workspace, Except.ok.injEq] at hw
    exact hw ▸ hworkspace.path
  · obtain ⟨c, hc, hclone⟩ := Clone.decode_of_accepts fun v hv =>
      hfield "clone" _ (by simp [Schema.pipelineFields, Clone.schemas]) v hv
    rw [reads.clone, Except.ok.injEq] at hc
    exact hc ▸ hclone.depth
  · obtain ⟨vs, hvs, hsteps⟩ := reads.steps
    refine holdsTexts_of_decodeSteps (fun v hv => ?_) hsteps
    cases hf : field? "steps" es with
    | none =>
      rw [hf] at hvs
      cases hvs
      cases hv
    | some w =>
      obtain ⟨ws, rfl, hws⟩ := Schema.accepts_arrayOf_iff.mp
        (hfield "steps" [.type [.array], .items Schema.step] (by simp [Schema.pipelineFields]) w hf)
      rw [hf, Value.elementsOrNone_seq, Except.ok.injEq] at hvs
      exact hws v (hvs ▸ hv)

end Pipeline

end PipelineManifest
