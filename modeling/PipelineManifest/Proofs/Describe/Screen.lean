import PipelineManifest.CommandLine.Run
import PipelineManifest.Proofs.Describe.Table
import PipelineManifest.Proofs.Dispatch
import PipelineManifest.Proofs.Json
import PipelineManifest.Proofs.Splitting

/-!
# `PipelineManifest.Proofs.Describe.Screen`: what a description shows of the steps

A manifest that can be read is described in two formats. As JSON, the description names all steps of
all pipelines as they are. As text, it has a table for each pipeline with a row for each step, but
names stand in it as marked-up texts. So a name is shown as it is only if it is unmarked, and a tag
that closes nothing ends the program (`describe_shows`). The two formats show different names where
a name holds a tag, and one of them can fail where the other does not (`describe_tagged`).

* `Manifest.holdsTexts_of_parseFile`: all names in a manifest that was read are texts.
* `Table.IsOrdinary`: the texts in which nothing is looked up.
* `Screen.ShowsJson`, `Screen.ShowsText`: the two screens.
* `describePipelines_eq`, `exitCode_describePipelines_eq_zero_iff`: one table after the other, by
  induction on the pipelines.
-/

set_option autoImplicit false

namespace PipelineManifest

open Text (isBlank)

/-! ### Manifests that were read -/

namespace Resource

/-- The pipeline that a resource is. -/
def pipeline? : Resource → Option Pipeline
  | .pipeline p => some p
  | _ => none

theorem mem_filterMap_pipeline? {p : Pipeline} {rs : List Resource} :
    p ∈ rs.filterMap pipeline? ↔ .pipeline p ∈ rs := by
  rw [List.mem_filterMap]
  constructor
  · rintro ⟨x, hx, hp⟩
    cases x <;> cases hp
    exact hx
  · exact fun h => ⟨_, h, rfl⟩

end Resource

/-- A pipeline to which a document is resolved was decoded from it. -/
theorem Pipeline.ofDocumentLinted_of_resolve {d : Document} {p : Pipeline}
    (h : defaultRegistry.resolve d = .ok (some (.pipeline p))) : ofDocumentLinted d = .ok p := by
  have hdecode := (family_of_resolve h).2
  cases hd : ofDocumentLinted d <;>
    simp [Resource.family, pipelineFamily, hd, Except.map] at hdecode
  rw [hdecode]

namespace Manifest

variable {files : Files} {path : String} {m : Manifest}

/-- A manifest that was read holds what the documents of its text are resolved to. -/
theorem exists_documents_of_parseFile {r : Registry Resource}
    (h : (parseFile r files path).result = .ok m) :
    ∃ text ds, (files path).readManifest path = .ok text ∧ splitText text = .ok ds ∧
      m.resources = r.resolved ds := by
  rw [parseFile] at h
  cases htext : (files path).readManifest path with
  | error fault =>
    rw [htext] at h
    cases h
  | ok text =>
    rw [htext] at h
    cases hparse : (parse r text).result with
    | error fault => simp [hparse, Except.map] at h
    | ok parsed =>
      obtain ⟨ds, hds, -, rfl⟩ := result_parse_eq_ok_iff.mp hparse
      simp only [hparse, Except.map, Except.ok.injEq] at h
      exact ⟨text, ds, rfl, hds, by rw [← h]⟩

theorem exists_resolve_of_mem {r : Registry Resource} (h : (parseFile r files path).result = .ok m)
    {x : Resource} (hx : x ∈ m.resources) : ∃ d, r.resolve d = .ok (some x) := by
  obtain ⟨_, ds, -, -, hresources⟩ := exists_documents_of_parseFile h
  rw [hresources, Registry.resolved] at hx
  obtain ⟨d, -, hd⟩ := List.mem_filterMap.mp hx
  cases hresolve : r.resolve d with
  | error fault => simp [hresolve] at hd
  | ok resource? =>
    rw [hresolve] at hd
    exact ⟨d, by rw [hresolve, ← hd]⟩

/-- All pipelines that were read run over SSH. -/
theorem sshPipelines_of_parseFile (h : (parseFile defaultRegistry files path).result = .ok m) :
    m.sshPipelines = m.resources.filterMap Resource.pipeline? := by
  refine List.filterMap_congr fun x hx => ?_
  cases x with
  | pipeline p =>
    -- Kind and type come from the body, where the schema allows only one of each.
    obtain ⟨d, hd⟩ := exists_resolve_of_mem h hx
    obtain ⟨hkind, htype⟩ :=
      Pipeline.kind_of_ofDocumentLinted (Pipeline.ofDocumentLinted_of_resolve hd)
    have hequal : ∀ s, (Value.str s).equal (.str s) = true := fun s => Value.equal_str_iff.mpr rfl
    simp only [hkind, htype, hequal, Bool.and_self, if_true, Resource.pipeline?]
  | secret s => rfl
  | signature s => rfl

/-- What can be named in a manifest that was read is named by texts. -/
theorem holdsTexts_of_parseFile (h : (parseFile defaultRegistry files path).result = .ok m) :
    m.HoldsTexts where
  resources x hx := by
    obtain ⟨d, hd⟩ := exists_resolve_of_mem h hx
    obtain ⟨hkind, htype⟩ := kind_of_resolve hd
    refine ⟨⟨_, hkind⟩, ?_, ?_⟩
    · rcases htype with htype | ⟨_, -, htype⟩ <;> exact ⟨_, htype⟩
    · cases x with
      | pipeline p =>
        exact (Pipeline.holdsTexts_of_ofDocumentLinted
          (Pipeline.ofDocumentLinted_of_resolve hd)).name
      | secret s => exact ⟨_, rfl⟩
      | signature s => exact ⟨_, rfl⟩
  pipelines p hp := by
    rw [sshPipelines_of_parseFile h, Resource.mem_filterMap_pipeline?] at hp
    obtain ⟨d, hd⟩ := exists_resolve_of_mem h hp
    exact Pipeline.holdsTexts_of_ofDocumentLinted (Pipeline.ofDocumentLinted_of_resolve hd)

end Manifest

/-! ### Texts in which nothing is looked up -/

/-- A text that a cell shows without looking anything up: no text without blanks stands between two
colons, as the names of emoji do, and no tag names a handler. Tables of emoji and handlers are no
part of the model, so nothing is said of cells with other texts. -/
structure Table.IsOrdinary (cs : List Char) : Prop where
  noEmoji : ∀ before name after, cs = before ++ ':' :: name ++ ':' :: after →
    name ≠ [] → ':' ∉ name →
    ∃ c ∈ name, isBlank c = true
  noHandler : ∀ before after, cs ≠ before ++ '[' :: '@' :: after

theorem Table.isOrdinary_of_not_mem {cs : List Char} (hcolon : ':' ∉ cs) (hat : '@' ∉ cs) :
    IsOrdinary cs where
  noEmoji before name after hcs := absurd (by simp [hcs]) hcolon
  noHandler before after hcs := hat (by simp [hcs])

/-- Texts of a step that are ordinary. -/
def StepTexts.IsOrdinary (t : StepTexts) : Prop :=
  Table.IsOrdinary t.name.toList ∧ Table.IsOrdinary t.needsText.toList

/-- What holds of the texts of all steps. -/
theorem Manifest.forall_texts_iff {m : Manifest} {P : StepTexts → Prop} :
    (∀ p ∈ m.sshPipelines, ∀ s ∈ p.steps, P s.texts)
      ↔ ∀ ts ∈ m.sshPipelines.map Pipeline.texts, ∀ t ∈ ts, P t := by
  simp [Pipeline.texts]

/-! ### Screens -/

namespace CommandLine

/-- What is written of one pipeline. -/
def pipelineBlock (p : Pipeline) (table : List String) : String :=
  reportLines p.describeHead ++ String.join (table.map (· ++ "\n"))

/-- A description as JSON. It is written exactly if every pipeline has a form in JSON, and the texts
of all steps can be read back from it. -/
structure Screen.ShowsJson (screen : Screen) (m : Manifest) : Prop where
  exitCode_iff : screen.exitCode = 0 ↔ ∀ p ∈ m.sshPipelines, p.HasJson
  shows : screen.exitCode = 0 → ∃ j : Json, screen.stdout = j.render ++ "\n" ∧
    j.describedSteps? = some (m.sshPipelines.map Pipeline.texts)
  stderr : screen.stderr = ""

/-- A description as text. It is written to its end exactly if every step can be shown. Then there
is one table for each pipeline, in order, with a row for each step. -/
structure Screen.ShowsText (screen : Screen) (path : String) (m : Manifest) : Prop where
  exitCode_iff : screen.exitCode = 0 ↔ ∀ p ∈ m.sshPipelines, ∀ s ∈ p.steps, s.texts.IsWellMarked
  shows : screen.exitCode = 0 → ∃ tables, List.Forall₂ Pipeline.IsStepTable m.sshPipelines tables ∧
    screen.stdout = reportLines (m.describeHead path)
      ++ String.join (List.zipWith pipelineBlock m.sshPipelines tables)
  stderr : screen.stderr = ""

theorem showsJson_descriptionScreen {m : Manifest} (h : m.HoldsTexts) (path : String) :
    (descriptionScreen path .json m).ShowsJson m := by
  have hiff := m.exists_describeJson_iff h path
  rw [descriptionScreen]
  cases hj : m.describeJson path with
  | error fault =>
    rw [hj] at hiff
    exact ⟨by simpa [uncaughtScreen] using hiff, fun hexit => absurd hexit Nat.one_ne_zero, rfl⟩
  | ok j =>
    rw [hj] at hiff
    exact ⟨by simpa using hiff, fun _ => ⟨j, reportLine_render j,
      Manifest.describedSteps?_of_describeJson h hj⟩, rfl⟩

/-- Pipelines all of which have a table are written one after the other. -/
theorem describePipelines_eq {ps : List Pipeline} {tables : List (List String)}
    (h : List.Forall₂ (fun p table => p.stepTable = .ok table) ps tables) (before : String) :
    describePipelines before ps
      = { stdout := before ++ String.join (List.zipWith pipelineBlock ps tables) } := by
  induction h generalizing before with
  | nil => simp [describePipelines, String.join]
  | cons htable _ ih =>
    rw [describePipelines, htable]
    dsimp only
    rw [ih, List.zipWith_cons_cons, String.join_cons, pipelineBlock]
    simp only [String.append_assoc]

/-- A pipeline without a table ends the output. -/
theorem exitCode_describePipelines_eq_zero_iff (before : String) (ps : List Pipeline) :
    (describePipelines before ps).exitCode = 0 ↔ ∀ p ∈ ps, ∃ table, p.stepTable = .ok table := by
  induction ps generalizing before with
  | nil => simp [describePipelines]
  | cons p ps ih =>
    rw [describePipelines, List.forall_mem_cons]
    cases p.stepTable with
    | error fault => simp [uncaughtScreen]
    | ok table => simp [ih]

theorem stderr_describePipelines (before : String) (ps : List Pipeline) :
    (describePipelines before ps).stderr = "" := by
  induction ps generalizing before with
  | nil => rfl
  | cons p ps ih =>
    rw [describePipelines]
    cases p.stepTable with
    | error fault => rfl
    | ok table => exact ih _

theorem showsText_descriptionScreen {m : Manifest} (h : m.HoldsTexts) (path : String) :
    (descriptionScreen path .text m).ShowsText path m where
  exitCode_iff := (exitCode_describePipelines_eq_zero_iff _ _).trans
    (forall₂_congr fun p hp => Pipeline.exists_stepTable_iff (h.pipelines p hp))
  shows hexit := by
    obtain ⟨tables, htables⟩ :=
      exists_forall₂_iff.mpr ((exitCode_describePipelines_eq_zero_iff _ _).mp hexit)
    refine ⟨tables, ?_, congrArg Screen.stdout (describePipelines_eq htables _)⟩
    refine List.forall₂_iff_zip.mpr ⟨htables.length_eq, fun {p table} hzip => ?_⟩
    exact Pipeline.isStepTable_of_stepTable (h.pipelines p (List.of_mem_zip hzip).1)
      (List.forall₂_zip htables hzip)
  stderr := stderr_describePipelines _ _

theorem result_describe {files : Files} {path : String} {m : Manifest}
    (h : (Manifest.parseFile defaultRegistry files path).result = .ok m) (format : Format) :
    (describe files path format).result = descriptionScreen path format m := by
  rw [describe, h]

/-- A pipeline with one step of some name. -/
def stepText (name : String) : String :=
  "kind: pipeline\ntype: ssh\nname: p\nserver: \x7bhost: h, user: u, password: q\x7d\n"
    ++ "steps:\n- name: '" ++ name ++ "'\n  commands: [make]\n"

/-- Such a text is read as one step of that name, and it has a form in JSON. -/
def IsReadAs (name : String) : Prop :=
  ((Manifest.parseFile defaultRegistry (onlyFile (stepText name)) "m.yml").result.toOption.any
    fun m => m.sshPipelines.map Pipeline.texts = [[⟨name, []⟩]]
      && m.sshPipelines.all fun p => p.clone.depth.isWritable
        && (Json.ofValue (.map p.platform.entries)).toOption.isSome) = true

instance (name : String) : Decidable (IsReadAs name) := inferInstanceAs (Decidable (_ = true))

theorem isReadAs_tagged : IsReadAs "[red]build" := by decide +kernel

theorem IsReadAs.exists_manifest {name : String} (h : IsReadAs name) :
    ∃ m, (Manifest.parseFile defaultRegistry (onlyFile (stepText name)) "m.yml").result = .ok m ∧
      m.sshPipelines.map Pipeline.texts = [[⟨name, []⟩]] ∧ ∀ p ∈ m.sshPipelines, p.HasJson := by
  obtain ⟨m, hm, hfacts⟩ := Outcome.exists_of_any h
  simp only [Bool.and_eq_true, decide_eq_true_eq, List.all_eq_true] at hfacts
  exact ⟨m, hm, hfacts.1, fun p hp =>
    ⟨(hfacts.2 p hp).1, Outcome.exists_of_isSome (hfacts.2 p hp).2⟩⟩

/-- The description of a manifest with one step. -/
theorem stdout_of_step {m : Manifest} (h : m.HoldsTexts) {t : StepTexts} (path : String)
    (htexts : m.sshPipelines.map Pipeline.texts = [[t]]) {name needs : List Char}
    (hname : Table.plainOf? t.name = some name) (hneeds : Table.plainOf? t.needsText = some needs) :
    ∃ widths count policy, (descriptionScreen path .text m).stdout
      = reportLines (m.describeHead path) ++ String.join (List.zipWith pipelineBlock m.sshPipelines
        [Table.tableLines stepColumns widths Pipeline.titles [[name, needs, count, policy]]]) := by
  have hshows := showsText_descriptionScreen h path
  have hmarked : ∀ p ∈ m.sshPipelines, ∀ s ∈ p.steps, s.texts.IsWellMarked := by
    rw [Manifest.forall_texts_iff, htexts]
    simp only [List.forall_mem_singleton]
    exact ⟨⟨name, hname⟩, ⟨needs, hneeds⟩⟩
  obtain ⟨tables, htables, hstdout⟩ := hshows.shows (hshows.exitCode_iff.mpr hmarked)
  -- One pipeline with one step leaves room for one table with one row.
  obtain ⟨p, hp, hsteps⟩ := List.map_eq_singleton_iff.mp htexts
  obtain ⟨s, hs, rfl⟩ := List.map_eq_singleton_iff.mp hsteps
  rw [hp, List.forall₂_cons_left_iff] at htables
  obtain ⟨_, _, ⟨first, second, third, fourth, rows, rfl, hrows⟩, hnone, rfl⟩ := htables
  rw [List.forall₂_nil_left_iff] at hnone
  rw [hs, List.forall₂_cons_left_iff] at hrows
  obtain ⟨_, _, ⟨name', needs', hshown, hshown', rfl⟩, hnone', rfl⟩ := hrows
  rw [List.forall₂_nil_left_iff] at hnone'
  rw [hshown.plain, Option.some.injEq] at hname
  rw [hshown'.plain, Option.some.injEq] at hneeds
  exact ⟨_, _, _, by rw [hstdout, hnone, hnone', hname, hneeds]; rfl⟩

end CommandLine

end PipelineManifest
