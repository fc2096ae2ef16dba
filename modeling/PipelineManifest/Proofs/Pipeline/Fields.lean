import PipelineManifest.Proofs.Outcome
import PipelineManifest.Proofs.Value.Keys
import PipelineManifest.Pipeline.Basic

/-!
# `PipelineManifest.Proofs.Pipeline.Fields`: where the fields of a pipeline come from

A pipeline that was decoded has each of its fields from one field of the document or of its source.
This is the decoder read backwards, stated once: later proofs take the fields one by one and do not
go through the chain again.

* `Pipeline.Reads`, `Pipeline.reads_of_decode`: the fields of a pipeline.
* `Step.Reads`, `Step.reads_of_decode`: the fields of a step.
-/

set_option autoImplicit false

namespace PipelineManifest

open Value (field?)

variable {data source : Value}

/-- Only mappings have fields. -/
theorem Value.exists_of_get {v : Value} {name : String} {o : Option Value}
    (h : v.get name = .ok o) :
    ∃ es, v = .map es := by
  cases v with
  | map es => exact ⟨es, rfl⟩
  | _ => cases h

/-- A field of a mapping, or what stands for it. -/
theorem Value.getD_map (es : List (Value × Value)) (name : String) (fallback : Value) :
    (Value.map es).getD name fallback = .ok ((field? name es).getD fallback) := rfl

namespace Step

/-- A step whose fields were read from the entries `es` of its data and `fs` of its source. -/
structure Reads (shell : String) (index : Nat) (es fs : List (Value × Value)) (s : Step) :
    Prop where
  name : s.name = (field? "name" es).getD (.str "")
  shell : s.shell = ((field? "shell" es).filter Value.isTruthy).getD (.str shell)
  detach : s.detach = (field? "detach" es).getD (.bool false)
  dependsOn : ∃ vs, Value.elementsOrNone (field? "depends_on" es) = .ok vs ∧ s.dependsOn = .seq vs
  commands : ∃ vs, Value.elementsOrNone (field? "commands" es) = .ok vs ∧ s.commands = .seq vs
  environment : ∃ vars, (Value.orEmpty (field? "environment" fs)).fields = .ok vars ∧
    decodeEnvironment index vars = .ok s.environment
  failure : Failure.decode (field? "failure" es) = .ok s.failure
  when : Conditions.decode ((field? "when" es).getD .null) (place index ++ ".when") = .ok s.when

theorem reads_of_decode {shell : String} {index : Nat} {s : Step}
    (h : decode data shell index source = .ok s) :
    ∃ es fs, data = .map es ∧ source.orData data = .map fs ∧ Reads shell index es fs s := by
  unfold decode at h
  obtain ⟨environment?, henvironment?, h⟩ := Outcome.bind_eq_ok_iff.mp h
  obtain ⟨fs, hfs⟩ := Value.exists_of_get henvironment?
  rw [hfs, Value.get_map] at henvironment?
  cases henvironment?
  obtain ⟨vars, hvars, h⟩ := Outcome.bind_eq_ok_iff.mp h
  obtain ⟨environment, henvironment, h⟩ := Outcome.bind_eq_ok_iff.mp h
  obtain ⟨name, hname, h⟩ := Outcome.bind_eq_ok_iff.mp h
  obtain ⟨_, hget, -⟩ := Outcome.bind_eq_ok_iff.mp hname
  obtain ⟨es, rfl⟩ := Value.exists_of_get hget
  cases hname
  simp +zeta only [Value.getD_map, Value.get_map, Outcome.ok_bind] at h
  obtain ⟨dependsOn, hdependsOn, h⟩ := Outcome.bind_eq_ok_iff.mp h
  obtain ⟨commands, hcommands, h⟩ := Outcome.bind_eq_ok_iff.mp h
  obtain ⟨failure, hfailure, h⟩ := Outcome.bind_eq_ok_iff.mp h
  obtain ⟨conditions, hwhen, h⟩ := Outcome.bind_eq_ok_iff.mp h
  cases h
  exact ⟨es, fs, rfl, hfs, {
    name := rfl, shell := rfl, detach := rfl
    dependsOn := ⟨dependsOn, hdependsOn, rfl⟩, commands := ⟨commands, hcommands, rfl⟩
    environment := ⟨vars, hvars, henvironment⟩, failure := hfailure, when := hwhen }⟩

end Step

namespace Pipeline

/-- A pipeline whose fields were read from the entries `es` of its data and `fs` of its source. -/
structure Reads (es fs : List (Value × Value)) (p : Pipeline) : Prop where
  kind : p.kind = (field? "kind" es).getD (.str documentKind)
  type : p.type = (field? "type" es).getD (.str documentType)
  name : field? "name" es = some p.name
  version : decodeVersion (field? "version" fs) = .ok p.version
  dependsOn : ∃ vs, Value.elementsOrNone (field? "depends_on" es) = .ok vs ∧ p.dependsOn = .seq vs
  node : decodeNode (field? "node" fs) = .ok p.node
  server : Server.decode (field? "server" fs) = .ok p.server
  workspace : Workspace.decode (field? "workspace" es) = .ok p.workspace
  platform : Platform.decode (field? "platform" fs) = .ok p.platform
  clone : Clone.decode (field? "clone" es) = .ok p.clone
  trigger : Conditions.decode ((field? "trigger" es).getD .null) "trigger" = .ok p.trigger
  steps : ∃ vs, Value.elementsOrNone (field? "steps" es) = .ok vs ∧
    decodeSteps (defaultShell p.platform.os) (orNoItems (field? "steps" fs)) 0 vs = .ok p.steps

theorem requiredField_eq_ok {es : List (Value × Value)} {name : String} {v : Value}
    (h : requiredField (.map es) name = .ok v) : field? name es = some v := by
  rw [requiredField, Value.get_map, Outcome.ok_bind] at h
  cases hf : field? name es with
  | none =>
    rw [hf] at h
    cases h
  | some w =>
    rw [hf] at h
    cases h
    rfl

theorem reads_of_decode {p : Pipeline} (h : decode data source = .ok p) :
    ∃ es fs, data = .map es ∧ source.orData data = .map fs ∧ Reads es fs p := by
  unfold decode at h
  -- The first field of the source shows that it is a mapping, and the kind that the data is one.
  obtain ⟨platform?, hplatform?, h⟩ := Outcome.bind_eq_ok_iff.mp h
  obtain ⟨fs, hfs⟩ := Value.exists_of_get hplatform?
  simp only [hfs, Value.get_map, Outcome.ok_bind] at h hplatform?
  cases hplatform?
  obtain ⟨platform, hplatform, h⟩ := Outcome.bind_eq_ok_iff.mp h
  obtain ⟨kind, hkind, h⟩ := Outcome.bind_eq_ok_iff.mp h
  obtain ⟨_, hget, -⟩ := Outcome.bind_eq_ok_iff.mp hkind
  obtain ⟨es, rfl⟩ := Value.exists_of_get hget
  simp only [Value.getD_map, Value.get_map, Outcome.ok_bind] at h hkind
  cases hkind
  obtain ⟨name, hname, h⟩ := Outcome.bind_eq_ok_iff.mp h
  obtain ⟨version, hversion, h⟩ := Outcome.bind_eq_ok_iff.mp h
  obtain ⟨dependsOn, hdependsOn, h⟩ := Outcome.bind_eq_ok_iff.mp h
  obtain ⟨node, hnode, h⟩ := Outcome.bind_eq_ok_iff.mp h
  obtain ⟨server, hserver, h⟩ := Outcome.bind_eq_ok_iff.mp h
  obtain ⟨workspace, hworkspace, h⟩ := Outcome.bind_eq_ok_iff.mp h
  obtain ⟨clone, hclone, h⟩ := Outcome.bind_eq_ok_iff.mp h
  obtain ⟨trigger, htrigger, h⟩ := Outcome.bind_eq_ok_iff.mp h
  obtain ⟨vs, hvs, h⟩ := Outcome.bind_eq_ok_iff.mp h
  obtain ⟨steps, hsteps, h⟩ := Outcome.bind_eq_ok_iff.mp h
  cases h
  exact ⟨es, fs, rfl, hfs, {
    kind := rfl, type := rfl, name := requiredField_eq_ok hname, version := hversion
    dependsOn := ⟨dependsOn, hdependsOn, rfl⟩, node := hnode, server := hserver
    workspace := hworkspace, platform := hplatform, clone := hclone, trigger := htrigger
    steps := ⟨vs, hvs, hsteps⟩ }⟩

end Pipeline

end PipelineManifest
