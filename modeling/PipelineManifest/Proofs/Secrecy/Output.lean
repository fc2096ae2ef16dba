import PipelineManifest.CommandLine.Run
import PipelineManifest.Proofs.Isolation
import PipelineManifest.Proofs.Secrecy.Decode
import PipelineManifest.Proofs.Value.Same

/-!
# `PipelineManifest.Proofs.Secrecy.Output`: credentials never reach the output

Two runs of the program on files that are the same but for credentials are compared. Both split the
same number of documents off, both reject the same ones with the same messages, and what they keep
has the same masked form. A description is made of the masked form alone, and so all that is written
is the same: on both channels, in the log at every level, and in the exit code.

* `FileState.Agrees`: files whose documents agree.
* `Logged.Alike`: two operations with the same log that agree.
* `descriptionScreen_masked`: a description shows nothing but the masked form.
* `run_eq_of_agrees`: the program does the same on files that agree.
-/

set_option autoImplicit false

namespace PipelineManifest

open Outcome (Alike alike_bind)
open Yaml (SourcedValue readStream)

/-! ### Files -/

/-- Two files that are the same, or hold texts whose documents agree one by one. -/
inductive FileState.Agrees : FileState → FileState → Prop
  | same (s : FileState) : Agrees s s
  | texts {s s' : FileState} {text text' : String} {vs ws : List SourcedValue}
    (htext : s.text = .ok text) (htext' : s'.text = .ok text') (hstream : readStream text = .ok vs)
    (hstream' : readStream text' = .ok ws) (h : List.Forall₂ SourcedValue.Agrees vs ws) :
    Agrees s s'

/-! ### Splitting -/

/-- Documents that differ are mappings. -/
theorem eq_or_maps_of_agrees {v w : SourcedValue} (h : v.Agrees w) :
    v = w ∨ (∃ es, v.data = .map es) ∧ ∃ fs, w.data = .map fs := by
  cases h with
  | same => exact .inl rfl
  | pipeline hkind hdata _ | secret hkind hdata _ =>
    obtain ⟨es, hes⟩ := exists_map_of_get hkind
    rw [hes] at hdata
    exact .inr ⟨⟨es, hes⟩, Value.MapsAgree.exists_map hdata⟩

theorem splitDocuments_singleton {v : SourcedValue} {es : List (Value × Value)}
    (h : v.data = .map es) (index : Nat) :
    splitDocuments index [v] = (do return [← Document.ofValue v.data index v.source]) := by
  rw [splitDocuments, h]
  rfl

/-- One document of a stream is split off like the other. -/
theorem agree_splitDocuments_singleton {v w : SourcedValue} (h : v.Agrees w) (hv : v.IsSourced)
    (hsteps : v.HasStepSources) (hw : w.IsSourced) (index : Nat) :
    Alike (List.Forall₂ Document.Agrees) (splitDocuments index [v]) (splitDocuments index [w]) := by
  rcases eq_or_maps_of_agrees h with rfl | ⟨⟨es, hes⟩, fs, hfs⟩
  · exact .refl (fun ds => List.forall₂_same.mpr fun d _ => .same d) _
  · rw [splitDocuments_singleton hes, splitDocuments_singleton hfs]
    exact (h.ofValue hv hsteps hw index).bind fun d d' hd => .ok (.cons hd .nil)

theorem agree_splitDocuments {vs ws : List SourcedValue}
    (h : List.Forall₂ SourcedValue.Agrees vs ws) (hvs : ∀ v ∈ vs, v.IsSourced)
    (hsteps : ∀ v ∈ vs, v.HasStepSources) (hws : ∀ w ∈ ws, w.IsSourced) (index : Nat) :
    Alike (List.Forall₂ Document.Agrees) (splitDocuments index vs) (splitDocuments index ws) := by
  induction h generalizing index with
  | nil => exact .ok .nil
  | @cons v w vs ws hvw _ ih =>
    obtain ⟨hv, hvs⟩ := List.forall_mem_cons.mp hvs
    obtain ⟨hvsteps, hsteps⟩ := List.forall_mem_cons.mp hsteps
    obtain ⟨hw, hws⟩ := List.forall_mem_cons.mp hws
    rw [splitDocuments_cons index v vs, splitDocuments_cons index w ws]
    refine (agree_splitDocuments_singleton hvw hv hvsteps hw index).bind fun ds ds' hds => ?_
    exact (ih hvs hsteps hws (index + 1)).bind fun es es' hes => .ok (List.rel_append hds hes)

theorem FileState.Agrees.split {s s' : FileState} (h : s.Agrees s') (path : String) :
    Alike (List.Forall₂ Document.Agrees) (s.readManifest path >>= splitText)
      (s'.readManifest path >>= splitText) := by
  cases h with
  | same => exact .refl (fun ds => List.forall₂_same.mpr fun d _ => .same d) _
  | texts htext htext' hstream hstream' h =>
    rw [FileState.readManifest, FileState.readManifest, htext, htext']
    show Alike _ (splitText _) (splitText _)
    rw [splitText, splitText, hstream, hstream']
    exact agree_splitDocuments h (Yaml.isSourced_of_readStream hstream)
      (Yaml.hasStepSources_of_readStream hstream) (Yaml.isSourced_of_readStream hstream') 0

/-! ### Decoding and validating -/

/-- Two operations that write the same log and agree. -/
structure Logged.Alike {α β : Type} (R : α → β → Prop) (x : Logged (Outcome α))
    (y : Logged (Outcome β)) : Prop where
  log : x.log = y.log
  result : Outcome.Alike R x.result y.result

/-- Resources that are the same but for credentials. -/
abbrev MaskedAlike (rs ss : List Resource) : Prop := rs.map Resource.masked = ss.map Resource.masked

theorem agree_resolveLogged {d d' : Document} (h : d.Agrees d') :
    Logged.Alike (fun o o' => MaskedAlike o.toList o'.toList) (defaultRegistry.resolveLogged d)
      (defaultRegistry.resolveLogged d') := by
  refine ⟨h.resolutionLog, h.resolve.imp fun o o' ho => ?_⟩
  rw [MaskedAlike, ← Option.toList_map, ← Option.toList_map, ho]

theorem agree_decodeAll {ds ds' : List Document} (h : List.Forall₂ Document.Agrees ds ds') :
    Logged.Alike MaskedAlike (decodeAll defaultRegistry ds) (decodeAll defaultRegistry ds') := by
  induction h with
  | nil => exact ⟨rfl, .ok rfl⟩
  | @cons d d' ds ds' hd _ ih =>
    have hfirst := agree_resolveLogged hd
    revert hfirst
    rw [decodeAll, decodeAll]
    generalize defaultRegistry.resolveLogged d = x, defaultRegistry.resolveLogged d' = y
    obtain ⟨x, log⟩ := x
    obtain ⟨y, log'⟩ := y
    rintro ⟨rfl : log = log', hresult : Alike _ x y⟩
    cases hresult with
    -- The first fault ends the decoding, with the log up to there.
    | error fault => exact ⟨rfl, .error fault⟩
    | ok ho =>
      refine ⟨congrArg (log ++ ·) ih.log, ih.result.map fun rs ss hrs => ?_⟩
      rw [MaskedAlike, List.map_append, List.map_append, ho, hrs]

theorem agree_validateAll {ds ds' : List Document} (h : List.Forall₂ Document.Agrees ds ds')
    (position : Nat) :
    Logged.Alike (fun x y => x.1 = y.1 ∧ MaskedAlike x.2 y.2)
      (Validation.validateAll defaultRegistry position ds)
      (Validation.validateAll defaultRegistry position ds') := by
  induction h generalizing position with
  | nil => exact ⟨rfl, .ok ⟨rfl, rfl⟩⟩
  | @cons d d' ds ds' hd _ ih =>
    have hlabel : Validation.label position d = Validation.label position d' := by
      obtain ⟨hkind, htype, -⟩ := hd.label
      rw [Validation.label, Validation.label, hkind, htype]
    obtain ⟨hrestlog, hrest⟩ := ih (position + 1)
    have hfirst := agree_resolveLogged hd
    revert hfirst
    rw [Validation.validateAll, Validation.validateAll, hlabel]
    generalize defaultRegistry.resolveLogged d = x, defaultRegistry.resolveLogged d' = y
    obtain ⟨x, log⟩ := x
    obtain ⟨y, log'⟩ := y
    rintro ⟨rfl : log = log', hresult : Alike _ x y⟩
    cases hresult with
    | ok ho =>
      refine ⟨congrArg (log ++ ·) hrestlog, hrest.map fun a b hab => ⟨hab.1, ?_⟩⟩
      rw [MaskedAlike, List.map_append, List.map_append, ho, hab.2]
    -- A fault that the validation notes leaves the rest to be validated, and any other ends it.
    | error fault =>
      dsimp only
      split
      · refine ⟨?_, hrest.map fun a b hab => ⟨?_, hab.2⟩⟩
        · dsimp only
          rw [hrestlog]
        · dsimp only
          rw [hab.1]
      · exact ⟨rfl, .error fault⟩

/-- A manifest without its credentials. -/
def Manifest.masked (m : Manifest) : Manifest :=
  { m with resources := m.resources.map Resource.masked }

theorem agree_ofFile {files files' : Files} {path : String}
    (h : (files path).Agrees (files' path)) :
    Logged.Alike (fun v w => v.errors = w.errors ∧
        v.manifest.map Manifest.masked = w.manifest.map Manifest.masked)
      (Validation.ofFile defaultRegistry files path)
      (Validation.ofFile defaultRegistry files' path) := by
  have hsplit := h.split path
  revert hsplit
  rw [Validation.ofFile, Validation.ofFile]
  generalize (files path).readManifest path >>= splitText = x,
    (files' path).readManifest path >>= splitText = y
  intro hsplit
  cases hsplit with
  | error fault => exact ⟨rfl, .refl (fun _ => ⟨rfl, rfl⟩) _⟩
  | ok hds =>
    obtain ⟨hlog, hresult⟩ := agree_validateAll hds 1
    refine ⟨hlog, hresult.map fun a b hab => ⟨hab.1, ?_⟩⟩
    simp only [Option.map_some, Manifest.masked, hab.2]

/-- Reading a manifest, as splitting its text and decoding the documents. -/
theorem parseFile_eq (r : Registry Resource) (files : Files) (path : String) :
    Manifest.parseFile r files path =
      (let start : LogEntry := ⟨.debug, decoderLogger, "Parsing manifest " ++ path⟩
      match (files path).readManifest path >>= splitText with
      | .error fault => ⟨.error fault, [start]⟩
      | .ok ds =>
        ⟨(decodeAll r ds).result.map fun resources => { resources, path := some path },
          start :: (decodeAll r ds).log⟩) := by
  rw [Manifest.parseFile]
  cases (files path).readManifest path with
  | error fault => rfl
  | ok text =>
    rw [Outcome.ok_bind]
    simp only [Manifest.parse]
    cases splitText text with
    | error fault => rfl
    | ok ds => cases h : (decodeAll r ds).result <;> simp [Except.map, h]

theorem agree_parseFile {files files' : Files} {path : String}
    (h : (files path).Agrees (files' path)) :
    Logged.Alike (fun m n => m.masked = n.masked)
      (Manifest.parseFile defaultRegistry files path)
      (Manifest.parseFile defaultRegistry files' path) := by
  have hsplit := h.split path
  revert hsplit
  rw [parseFile_eq, parseFile_eq]
  generalize (files path).readManifest path >>= splitText = x,
    (files' path).readManifest path >>= splitText = y
  intro hsplit
  cases hsplit with
  | error fault => exact ⟨rfl, .error fault⟩
  | ok hds =>
    obtain ⟨hlog, hresult⟩ := agree_decodeAll hds
    refine ⟨congrArg (_ :: ·) hlog, hresult.map fun rs ss hrs => ?_⟩
    simp only [Manifest.masked, hrs]

/-! ### Descriptions -/

namespace Variable

theorem describe_masked (v : Variable) : v.masked.describe false = v.describe false := by
  cases v with
  | literal text => by_cases h : text = "" <;> simp [masked, describe, isPresent, h]
  | secret name => rfl
  | absent => rfl

end Variable

theorem Server.describe_masked (s : Server) : s.masked.describe = s.describe := by
  simp only [Server.describe, Server.masked, Variable.describe_masked]

namespace Pipeline

/-- Of a step nothing is shown that its masked form does not have. -/
theorem mapM_masked {α : Type} {f : Step → Outcome α} (hf : ∀ s, f s.masked = f s)
    (steps : List Step) : (steps.map Step.masked).mapM f = steps.mapM f := by
  rw [List.mapM_map]
  exact congrArg (List.mapM · steps) (funext hf)

theorem describeJson_masked (p : Pipeline) : p.masked.describeJson = p.describeJson := by
  have hsteps : p.masked.steps.mapM Step.describeJson = p.steps.mapM Step.describeJson :=
    mapM_masked (fun _ => rfl) p.steps
  rw [describeJson, describeJson, hsteps]
  simp only [masked, Server.describe_masked]

theorem describeHead_masked (p : Pipeline) : p.masked.describeHead = p.describeHead := by
  simp only [describeHead, platformLines, masked, Server.describe_masked]
  rfl

theorem stepTable_masked (p : Pipeline) : p.masked.stepTable = p.stepTable := by
  have hsteps : p.masked.steps.mapM Step.describeRow = p.steps.mapM Step.describeRow :=
    mapM_masked (fun _ => rfl) p.steps
  rw [stepTable, stepTable, hsteps]

end Pipeline

namespace Manifest

theorem label_masked (r : Resource) : r.masked.label = r.label := by
  cases r <;> rfl

theorem resourceJson_masked (r : Resource) : resourceJson r.masked = resourceJson r := by
  cases r <;> rfl

theorem sshPipelines_masked (m : Manifest) :
    m.masked.sshPipelines = m.sshPipelines.map Pipeline.masked := by
  rw [sshPipelines, sshPipelines, masked, List.filterMap_map, List.map_filterMap]
  congr 1
  funext r
  cases r with
  | pipeline p =>
    simp only [Function.comp_apply, Resource.masked]
    show (if _ then _ else _) = Option.map _ (if _ then _ else _)
    split <;> simp_all [Pipeline.masked]
  | _ => rfl

theorem describeHead_masked (m : Manifest) (path : String) :
    m.masked.describeHead path = m.describeHead path := by
  simp only [describeHead, masked, List.length_map, List.map_map, Function.comp_def, label_masked]

theorem describeJson_masked (m : Manifest) (path : String) :
    m.masked.describeJson path = m.describeJson path := by
  have hresources : m.masked.resources.mapM resourceJson = m.resources.mapM resourceJson := by
    rw [masked, List.mapM_map]
    exact congrArg (List.mapM · m.resources) (funext resourceJson_masked)
  have hpipelines : m.masked.sshPipelines.mapM Pipeline.describeJson
      = m.sshPipelines.mapM Pipeline.describeJson := by
    rw [sshPipelines_masked, List.mapM_map]
    exact congrArg (List.mapM · m.sshPipelines) (funext Pipeline.describeJson_masked)
  rw [describeJson, describeJson, hresources, hpipelines]

end Manifest

namespace CommandLine

theorem describePipelines_masked (before : String) (ps : List Pipeline) :
    describePipelines before (ps.map Pipeline.masked) = describePipelines before ps := by
  induction ps generalizing before with
  | nil => rfl
  | cons p ps ih =>
    simp only [List.map_cons, describePipelines, p.describeHead_masked, p.stepTable_masked, ih]

/-- A description shows nothing but the masked form. -/
theorem descriptionScreen_masked (path : String) (format : Format) (m : Manifest) :
    descriptionScreen path format m.masked = descriptionScreen path format m := by
  simp only [descriptionScreen, m.describeJson_masked, m.describeHead_masked,
    m.sshPipelines_masked, describePipelines_masked]

/-- A validation shows the errors and how many resources there are. -/
theorem validationScreen_eq {v w : Validation} (herrors : v.errors = w.errors)
    (hmanifest : v.manifest.map Manifest.masked = w.manifest.map Manifest.masked) (path : String)
    (format : Format) : validationScreen path format v = validationScreen path format w := by
  have hsize : v.size = w.size := by
    have hlength := congrArg (Option.map (·.resources.length)) hmanifest
    simp only [Option.map_map, Function.comp_def, Manifest.masked, List.length_map] at hlength
    rw [Validation.size, Validation.size, hlength]
  have hvalid : v.isValid = w.isValid := by rw [Validation.isValid, Validation.isValid, herrors]
  unfold validationScreen validationJson
  rw [hvalid, hsize, herrors]

/-! ### The program -/

theorem validate_eq {files files' : Files} {path : String}
    (h : (files path).Agrees (files' path)) (format : Format) :
    validate files path format = validate files' path format := by
  obtain ⟨hlog, hresult⟩ := agree_ofFile h
  revert hlog hresult
  rw [validate, validate]
  generalize Validation.ofFile defaultRegistry files path = x,
    Validation.ofFile defaultRegistry files' path = y
  obtain ⟨x, log⟩ := x
  obtain ⟨y, log'⟩ := y
  rintro (rfl : log = log') (hresult : Alike _ x y)
  cases hresult with
  | error fault => rfl
  | ok hvw => simp only [validationScreen_eq hvw.1 hvw.2 path format]

theorem describe_eq {files files' : Files} {path : String}
    (h : (files path).Agrees (files' path)) (format : Format) :
    describe files path format = describe files' path format := by
  obtain ⟨hlog, hresult⟩ := agree_parseFile h
  revert hlog hresult
  rw [describe, describe]
  generalize Manifest.parseFile defaultRegistry files path = x,
    Manifest.parseFile defaultRegistry files' path = y
  obtain ⟨x, log⟩ := x
  obtain ⟨y, log'⟩ := y
  rintro (rfl : log = log') (hresult : Alike _ x y)
  cases hresult with
  | error fault => rfl
  -- Two different manifests are described alike because each is described like its masked form.
  | @ok m n hmn =>
    simp only [← descriptionScreen_masked path format m, hmn, descriptionScreen_masked]

/-- On files that are the same but for credentials, a command gives the same screen and the same
log, and the program writes the same on both channels and ends with the same exit code, for all
arguments, every log level of the environment among them. It does not matter whether the documents
keep their schemas and the lint rules or whether any family owns them. -/
theorem run_eq_of_agrees {files files' : Files}
    (h : ∀ path, (files path).Agrees (files' path)) :
    (∀ (c : Command) (path output : String), c.run files path output = c.run files' path output) ∧
      ∀ env time args, run files env time args = run files' env time args := by
  have hcommand : ∀ (c : Command) (path output : String),
      c.run files path output = c.run files' path output := by
    intro c path output
    rw [Command.run, Command.run]
    split
    · rfl
    · cases c with
      | validate => exact validate_eq (h path) _
      | describe => exact describe_eq (h path) _
  refine ⟨hcommand, fun env time args => ?_⟩
  rw [run, run]
  -- Arguments are parsed before any file is read.
  split
  · rename_i invocation _
    cases invocation with
    | help => rfl
    | version => rfl
    | run logLevel command path output =>
      simp only [Invocation.perform, hcommand]
  · rfl

/-! ### Two manifests -/

/-- The text of a pipeline with a password and an environment, and of a secret. -/
def credentialsText (password entry data : String) : String :=
  "kind: pipeline\ntype: ssh\nname: p\nserver: \x7bhost: h, user: u, password: " ++ password
    ++ "\x7d\nsteps:\n- name: a\n  environment: \x7bK: " ++ entry
    ++ "\x7d\n---\nkind: secret\nname: s\ndata: " ++ data ++ "\n"

/-- The pipeline of such a text. -/
def credentialsPipeline (password entry : Value) : Value := .map [
  (.str "kind", .str "pipeline"), (.str "type", .str "ssh"), (.str "name", .str "p"),
  (.str "server", .map [
    (.str "host", .str "h"), (.str "user", .str "u"), (.str "password", password)]),
  (.str "steps", .seq [.map [
    (.str "name", .str "a"), (.str "environment", .map [(.str "K", entry)])]])]

/-- The secret of such a text. -/
def credentialsSecret (data : String) : Value := .map [
  (.str "kind", .str "secret"), (.str "name", .str "s"), (.str "data", .str data)]

theorem credentialsPipeline_agree {p q e f : Value} (hp : p.IsCredential) (hq : q.IsCredential)
    (he : e.IsPlain) (hf : f.IsPlain) :
    (credentialsPipeline p e).PipelinesAgree (credentialsPipeline q f) := by
  have hptree := Value.isTree_of_isPlain hp.1
  have hqtree := Value.isTree_of_isPlain hq.1
  have hetree := Value.isTree_of_isPlain he
  have hftree := Value.isTree_of_isPlain hf
  have hserver : Value.ServersAgree
      (.map [(.str "host", .str "h"), (.str "user", .str "u"), (.str "password", p)])
      (.map [(.str "host", .str "h"), (.str "user", .str "u"), (.str "password", q)]) := by
    refine .of_isTree ?_ ?_ ?_ <;>
      simp [Value.isTree, Value.areTreeEntries, Value.AtFields, Value.Swappable, *]
  have henvironment : Value.EnvironmentsAgree (.map [(.str "K", e)]) (.map [(.str "K", f)]) := by
    refine .of_isTree ?_ ?_ ?_ <;>
      simp [Value.isTree, Value.areTreeEntries, Value.Swappable, *]
  have hstep : Value.StepsAgree
      (.map [(.str "name", .str "a"), (.str "environment", .map [(.str "K", e)])])
      (.map [(.str "name", .str "a"), (.str "environment", .map [(.str "K", f)])]) := by
    refine .of_isTree ?_ ?_ ?_ <;>
      simp [Value.isTree, Value.areTreeEntries, Value.AtFields, *]
  have hsteps : Value.ItemsAgree Value.StepsAgree
      (.seq [.map [(.str "name", .str "a"), (.str "environment", .map [(.str "K", e)])]])
      (.seq [.map [(.str "name", .str "a"), (.str "environment", .map [(.str "K", f)])]]) := by
    refine .of_isTree ?_ ?_ ?_ <;>
      simp [Value.isTree, Value.areTreeEntries, Value.areTrees, *]
  refine .of_isTree ?_ ?_ ?_ <;>
    simp [Value.isTree, Value.areTreeEntries, Value.areTrees, Value.AtFields, *]

theorem credentialsSecret_agree (s t : String) :
    (credentialsSecret s).SecretsAgree (credentialsSecret t) := by
  refine .of_isTree rfl rfl ?_
  simp [Value.AtFields, Value.Swappable]

/-- The password, a variable and a secret are changed, two of them for what is no text. -/
theorem run_eq_of_agrees_changed :
    run (onlyFile (credentialsText "hunter2" "v" "abc")) none ""
        ["--log-level", "debug", "describe", "-m", "m.yml"]
      = run (onlyFile (credentialsText "17" "yes" "xyz")) none ""
        ["--log-level", "debug", "describe", "-m", "m.yml"] := by
  have hread : (onlyFile (credentialsText "hunter2" "v" "abc") "m.yml").text.toOption
        = some (credentialsText "hunter2" "v" "abc") ∧
      (readStream (credentialsText "hunter2" "v" "abc")).toOption = some [
        ⟨credentialsPipeline (.str "hunter2") (.str "v"),
          credentialsPipeline (.str "hunter2") (.str "v")⟩,
        ⟨credentialsSecret "abc", credentialsSecret "abc"⟩] := by
    decide +kernel
  have hread' : (onlyFile (credentialsText "17" "yes" "xyz") "m.yml").text.toOption
        = some (credentialsText "17" "yes" "xyz") ∧
      (readStream (credentialsText "17" "yes" "xyz")).toOption = some [
        ⟨credentialsPipeline (.int 17) (.bool true), credentialsPipeline (.str "17") (.str "yes")⟩,
        ⟨credentialsSecret "xyz", credentialsSecret "xyz"⟩] := by
    decide +kernel
  have hdocuments : List.Forall₂ SourcedValue.Agrees [
      ⟨credentialsPipeline (.str "hunter2") (.str "v"),
        credentialsPipeline (.str "hunter2") (.str "v")⟩,
      ⟨credentialsSecret "abc", credentialsSecret "abc"⟩] [
      ⟨credentialsPipeline (.int 17) (.bool true), credentialsPipeline (.str "17") (.str "yes")⟩,
      ⟨credentialsSecret "xyz", credentialsSecret "xyz"⟩] := by
    have hpassword : (Value.str "hunter2").IsCredential := ⟨trivial, by decide⟩
    have hnumber : (Value.int 17).IsCredential := ⟨trivial, by decide⟩
    have hspelled : (Value.str "17").IsCredential := ⟨trivial, by decide⟩
    refine .cons (.pipeline rfl ?_ ?_) (.cons (.secret rfl ?_ ?_) .nil)
    · exact credentialsPipeline_agree hpassword hnumber trivial trivial
    · exact credentialsPipeline_agree hpassword hspelled trivial trivial
    · exact credentialsSecret_agree _ _
    · exact credentialsSecret_agree _ _
  refine (run_eq_of_agrees fun path => ?_).2 _ _ _
  by_cases hpath : path = "m.yml"
  · rw [hpath]
    exact .texts (Outcome.eq_ok_of_toOption hread.1) (Outcome.eq_ok_of_toOption hread'.1)
      (Outcome.eq_ok_of_toOption hread.2) (Outcome.eq_ok_of_toOption hread'.2) hdocuments
  · rw [onlyFile, onlyFile, if_neg hpath, if_neg hpath]
    exact .same _

end CommandLine

end PipelineManifest
