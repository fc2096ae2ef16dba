import PipelineManifest.Describe
import PipelineManifest.Proofs.Pipeline.Texts

/-!
# `PipelineManifest.Proofs.Describe.Json`: descriptions as JSON

A description as JSON names each step with the steps that it depends on. These texts can be read
back from it (`Manifest.describedSteps?_of_describeJson`). Two fields of a pipeline can keep it from
having a form in JSON: a depth of too many digits, and a platform that is no mapping of texts.

* `StepTexts`, `Step.texts`: the texts of a step that a description shows.
* `Json.describedSteps?`: the texts in a description.
* `Step.exists_describeJson`, `Pipeline.exists_describeJson_iff`,
  `Manifest.exists_describeJson_iff`: which steps, pipelines and manifests have a form in
JSON. -/

set_option autoImplicit false

namespace PipelineManifest

/-! ### What is shown of a step -/

/-- The texts of a step that a description shows: its name, and the names of the steps that it
depends on. -/
structure StepTexts where
  name : String
  needs : List String
  deriving DecidableEq

/-- The names of the steps that a step depends on, in one text. -/
def StepTexts.needsText (t : StepTexts) : String :=
  let joined := ", ".intercalate t.needs
  if joined = "" then "-" else joined

/-- The items of a list that are texts. -/
def Value.texts : Value → List String
  | .seq vs => vs.filterMap Value.str?
  | _ => []

/-- The texts of a step. -/
def Step.texts (s : Step) : StepTexts := ⟨s.name.str?.getD "", s.dependsOn.texts⟩

/-- The texts of the steps of a pipeline. -/
def Pipeline.texts (p : Pipeline) : List StepTexts := p.steps.map Step.texts

theorem Value.texts_seq_map_str (ss : List String) : (Value.seq (ss.map .str)).texts = ss := by
  simp [texts, List.filterMap_map, Function.comp_def, str?]

namespace Step

variable {s : Step}

theorem HoldsTexts.name_eq (h : s.HoldsTexts) : s.name = .str s.texts.name := by
  obtain ⟨name, hname⟩ := h.name
  rw [texts, hname]
  rfl

theorem HoldsTexts.elements_dependsOn (h : s.HoldsTexts) :
    s.dependsOn.elements = .ok (s.texts.needs.map .str) := by
  obtain ⟨needs, hneeds⟩ := h.dependsOn
  rw [texts, hneeds, Value.texts_seq_map_str, Value.elements, Value.items_map_str]

theorem HoldsTexts.exists_commandCount (h : s.HoldsTexts) : ∃ n, s.commandCount = .ok n := by
  obtain ⟨commands, hcommands⟩ := h.commands
  exact ⟨commands.length, by simp [commandCount, hcommands, Value.elements, Value.items_map_str]⟩

end Step

/-! ### Reading a description -/

namespace Json

/-- A field of an object. -/
def field? (name : String) : Json → Option Json
  | .object fields => fields.lookup name
  | _ => none

/-- The items of an array. -/
def items? : Json → Option (List Json)
  | .array items => some items
  | _ => none

/-- The text that a document is. -/
def str? : Json → Option String
  | .str s => some s
  | _ => none

/-- The texts of a step in a description. -/
def stepTexts? (j : Json) : Option StepTexts := do
  let name ← (← j.field? "name").str?
  let needs ← (← (← j.field? "depends_on").items?).mapM str?
  return { name, needs }

/-- The texts of the steps of a pipeline in a description. -/
def pipelineTexts? (j : Json) : Option (List StepTexts) := do
  (← (← j.field? "steps").items?).mapM stepTexts?

/-- The texts of the steps in a description, pipeline by pipeline. -/
def describedSteps? (j : Json) : Option (List (List StepTexts)) := do
  (← (← j.field? "pipelines").items?).mapM pipelineTexts?

end Json

/-- What was written item by item is read back item by item. -/
theorem mapM_eq_some_map {α β γ : Type} {f : α → Outcome β} {read : β → Option γ} {g : α → γ}
    {xs : List α} {ys : List β} (hread : ∀ x ∈ xs, ∀ y, f x = .ok y → read y = some (g x))
    (h : xs.mapM f = .ok ys) : ys.mapM read = some (xs.map g) := by
  induction xs generalizing ys with
  | nil =>
    cases h
    rfl
  | cons x xs ih =>
    obtain ⟨y, rest, hy, hrest, rfl⟩ := Outcome.mapM_cons_eq_ok_iff.mp h
    rw [List.forall_mem_cons] at hread
    simp [hread.1 y hy, ih hread.2 hrest]

/-! ### Writing a description -/

/-- A step has a form in JSON, from which its texts are read back. -/
theorem Step.exists_describeJson {s : Step} (h : s.HoldsTexts) :
    ∃ j, s.describeJson = .ok j ∧ j.stepTexts? = some s.texts := by
  obtain ⟨shell, hshell⟩ := h.shell
  obtain ⟨n, hn⟩ := h.exists_commandCount
  -- The texts of the list are written one by one, and so they are read.
  have hneeds : s.texts.needs.mapM (Json.ofValue ∘ Value.str)
      = .ok (s.texts.needs.map Json.str) := Outcome.mapM_ok fun _ _ => rfl
  have hread : (s.texts.needs.map Json.str).mapM Json.str? = some (s.texts.needs.map id) := by
    refine mapM_eq_some_map (fun text _ j hj => ?_) hneeds
    cases hj
    rfl
  refine ⟨.object [("name", .str s.texts.name), ("shell", .str shell),
    ("depends_on", .array (s.texts.needs.map .str)), ("commands", .int n),
    ("failure", .str s.failure.name)], ?_, ?_⟩
  · simp only [describeJson, h.name_eq, hshell, h.elements_dependsOn, hn, List.mapM_map, hneeds,
      Json.ofValue, Outcome.ok_bind, Outcome.pure_eq_ok]
  · rw [List.map_id] at hread
    simp [Json.stepTexts?, Json.field?, List.lookup_cons, Json.str?, Json.items?, hread]

namespace Pipeline

/-- A pipeline that has a form in JSON: its depth is no number of too many digits, and its platform
has a form itself, as it has if its fields are texts. -/
def HasJson (p : Pipeline) : Prop :=
  p.clone.depth.isWritable = true ∧ ∃ j, Json.ofValue (.map p.platform.entries) = .ok j

/-- A depth has a form in JSON exactly if it can be written. -/
theorem exists_ofValue_depth_iff {v : Value} (h : Schema.IsDepth v) :
    (∃ j, Json.ofValue v = .ok j) ↔ v.isWritable = true := by
  obtain ⟨n, -, rfl | ⟨x, rfl, -⟩⟩ := h
  · rw [Json.ofValue, Json.writable, Value.isWritable]
    cases Number.isWritable n <;> simp
  · exact ⟨fun _ => rfl, fun _ => ⟨_, rfl⟩⟩

variable {p : Pipeline}

/-- What a pipeline is described as, if its platform and its depth have a form in JSON. -/
theorem describeJson_eq (h : p.HoldsTexts) :
    ∃ name version path steps,
      p.steps.mapM Step.describeJson = .ok steps ∧ steps.mapM Json.stepTexts? = some p.texts ∧
      p.describeJson = (do
        let platform ← Json.ofValue (.map p.platform.entries)
        let depth ← Json.ofValue p.clone.depth
        return .object [
          ("name", .str name), ("version", .str version),
          ("server", .object (p.server.describe.map fun (field, text) => (field, .str text))),
          ("platform", platform), ("workspace", .str path), ("clone_depth", depth),
          ("steps", .array steps)]) := by
  obtain ⟨name, hname⟩ := h.name
  obtain ⟨version, hversion⟩ := h.version
  obtain ⟨path, hpath⟩ := h.path
  obtain ⟨steps, hsteps⟩ := Outcome.exists_mapM_iff.mpr fun s hs =>
    (Step.exists_describeJson (h.steps s hs)).imp fun _ hj => hj.1
  refine ⟨name, version, path, steps, hsteps, ?_, ?_⟩
  · refine mapM_eq_some_map (fun s hs j hj => ?_) hsteps
    obtain ⟨j', hj', hread⟩ := Step.exists_describeJson (h.steps s hs)
    rw [hj, Except.ok.injEq] at hj'
    rw [hj', hread]
  · simp only [describeJson, hname, hversion, hpath, hsteps, Json.ofValue, Outcome.ok_bind,
      Outcome.pure_eq_ok]

theorem exists_describeJson_iff (h : p.HoldsTexts) : (∃ j, p.describeJson = .ok j) ↔ p.HasJson := by
  obtain ⟨name, version, path, steps, -, -, heq⟩ := describeJson_eq h
  rw [HasJson, ← exists_ofValue_depth_iff h.depth, heq]
  -- All other fields are texts, and the steps have a form.
  cases Json.ofValue (.map p.platform.entries) with
  | error fault => simp
  | ok platform => cases Json.ofValue p.clone.depth <;> simp

/-- The texts of the steps are read back from the description of a pipeline. -/
theorem pipelineTexts?_of_describeJson (h : p.HoldsTexts) {j : Json} (hj : p.describeJson = .ok j) :
    j.pipelineTexts? = some p.texts := by
  obtain ⟨name, version, path, steps, -, hread, heq⟩ := describeJson_eq h
  rw [heq] at hj
  obtain ⟨platform, -, hj⟩ := Outcome.bind_eq_ok_iff.mp hj
  obtain ⟨depth, -, hj⟩ := Outcome.bind_eq_ok_iff.mp hj
  cases hj
  simpa [Json.pipelineTexts?, Json.field?, List.lookup_cons, Json.items?] using hread

end Pipeline

namespace Manifest

/-- Resources whose kind, type and name are texts, among them pipelines that hold texts. -/
structure HoldsTexts (m : Manifest) : Prop where
  resources : ∀ r ∈ m.resources, r.kind.IsText ∧ r.type.IsText ∧ r.name.IsText
  pipelines : ∀ p ∈ m.sshPipelines, p.HoldsTexts

variable {m : Manifest}

theorem exists_resourceJson {r : Resource} (h : r.kind.IsText ∧ r.type.IsText ∧ r.name.IsText) :
    ∃ j, resourceJson r = .ok j := by
  obtain ⟨⟨kind, hkind⟩, ⟨type, htype⟩, ⟨name, hname⟩⟩ := h
  exact ⟨_, by simp only [resourceJson, hkind, htype, hname, Json.ofValue, Outcome.ok_bind]; rfl⟩

/-- A manifest has a form in JSON exactly if each of its pipelines has one. -/
theorem exists_describeJson_iff (h : m.HoldsTexts) (path : String) :
    (∃ j, m.describeJson path = .ok j) ↔ ∀ p ∈ m.sshPipelines, p.HasJson := by
  obtain ⟨resources, hresources⟩ := Outcome.exists_mapM_iff.mpr fun r hr =>
    exists_resourceJson (h.resources r hr)
  have hpipelines : (∃ js, m.sshPipelines.mapM Pipeline.describeJson = .ok js) ↔
      ∀ p ∈ m.sshPipelines, p.HasJson :=
    Outcome.exists_mapM_iff.trans (forall₂_congr fun p hp =>
      Pipeline.exists_describeJson_iff (h.pipelines p hp))
  rw [describeJson, hresources, Outcome.ok_bind, ← hpipelines]
  cases m.sshPipelines.mapM Pipeline.describeJson <;> simp

/-- The texts of all steps are read back from the description of a manifest. -/
theorem describedSteps?_of_describeJson (h : m.HoldsTexts) {path : String} {j : Json}
    (hj : m.describeJson path = .ok j) :
    j.describedSteps? = some (m.sshPipelines.map Pipeline.texts) := by
  obtain ⟨resources, -, hj⟩ := Outcome.bind_eq_ok_iff.mp hj
  obtain ⟨pipelines, hpipelines, hj⟩ := Outcome.bind_eq_ok_iff.mp hj
  cases hj
  have hread : pipelines.mapM Json.pipelineTexts? = some (m.sshPipelines.map Pipeline.texts) :=
    mapM_eq_some_map
      (fun p hp j hj => Pipeline.pipelineTexts?_of_describeJson (h.pipelines p hp) hj)
      hpipelines
  simpa [Json.describedSteps?, Json.field?, List.lookup_cons, Json.items?] using hread

end Manifest

end PipelineManifest
