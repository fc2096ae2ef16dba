import PipelineManifest.Pipeline.Lint
import PipelineManifest.Proofs.RoundTrip
import PipelineManifest.Proofs.Secrecy.Schema
import PipelineManifest.Proofs.Yaml.Root

/-!
# `PipelineManifest.Proofs.Secrecy.Decode`: what documents that agree hold

What a resource shows of its credentials is its masked form: of the password and the key of a server
it is left whether there is a text, and environments and the texts of secrets are gone. Documents
that agree are rejected with the same fault, or they hold resources with the same masked form. Each
decoder is taken along its own chain of reads.

A number that is too long to be written is a fault where it is read as a credential. No source has
one, and credentials are read from the data only where a document or a step has no source, which
does not happen to a document of a text.

* `Resource.masked`: a resource without its credentials.
* `SourcesSteps`: the source of a document that is read from a text.
* `Pipeline.agree_decode`, `Step.agree_decode`, `Server.agree_decode`: the decoders of a pipeline.
* `Pipeline.lint_masked`: the lint rules ask only whether there are credentials.
* `Document.Agrees.resolve`: what the default registry makes of documents that agree.
-/

set_option autoImplicit false

namespace PipelineManifest

open Outcome (Alike alike_bind alike_mapM alike_self)
open Value (EnvironmentsAgree IsCredential IsPlain ItemsAgree MapsAgree PipelinesAgree SecretsAgree
  ServersAgree StepsAgree Swappable Writably)
open Yaml (SourcedValue)

/-! ### Masks -/

/-- A variable of whose text nothing is left but whether it is empty. -/
def Variable.masked : Variable → Variable
  | literal text => literal (if text = "" then "" else "*")
  | v => v

/-- A server without its credentials. -/
def Server.masked (s : Server) : Server :=
  { s with password := s.password.masked, sshKey := s.sshKey.masked }

/-- A step without its environment. -/
def Step.masked (s : Step) : Step := { s with environment := [] }

/-- A pipeline without its credentials. -/
def Pipeline.masked (p : Pipeline) : Pipeline :=
  { p with server := p.server.masked, steps := p.steps.map Step.masked }

/-- A secret without its text. -/
def Secret.masked (s : Secret) : Secret := { s with data := "" }

/-- A resource without its credentials. -/
def Resource.masked : Resource → Resource
  | pipeline p => pipeline p.masked
  | secret s => secret s.masked
  | signature s => signature s

/-! ### Variables -/

namespace Variable

theorem decode_of_isPlain {v : Value} (h : v.IsPlain) (hw : v.isWritable = true)
    (field : String) : decode v field = .ok (literal v.scalarText) := by
  have htext : v.toScalarText = .ok v.scalarText := Value.toScalarText_of_isWritable hw
  cases v with
  | str | int | float | bool =>
    rw [decode, htext]
    rfl
  | _ => exact h.elim

theorem masked_of_isCredential {v : Value} (h : v.IsCredential) :
    (literal v.scalarText).masked = literal "*" := by
  rw [masked, if_neg h.2]

/-- Two credentials are decoded to variables of which the same is left. -/
theorem agree_decodeField {o o' : Option Value}
    (h : Option.Rel (Writably (Swappable IsCredential)) o o') (field : String) :
    Alike (fun a b => a.masked = b.masked) (decodeField o field) (decodeField o' field) := by
  cases h with
  | none => exact alike_self masked _
  | some h =>
    obtain ⟨rfl | ⟨hv, hw⟩, hboth⟩ := h
    · exact alike_self masked _
    rcases hboth with rfl | ⟨hv', hw'⟩
    · exact alike_self masked _
    · rw [decodeField, decodeField, Option.getD_some, Option.getD_some,
        decode_of_isPlain hv.1 hv', decode_of_isPlain hw.1 hw']
      refine .ok ?_
      rw [masked_of_isCredential hv, masked_of_isCredential hw]

end Variable

/-! ### Servers -/

theorem Server.agree_decode {o o' : Option Value}
    (h : Option.Rel (Writably ServersAgree) o o') :
    Alike (fun s t => s.masked = t.masked) (Server.decode o) (Server.decode o') := by
  have hmap : Writably ServersAgree (Value.orEmpty o) (Value.orEmpty o') := Writably.orEmpty h
  rw [Server.decode, Server.decode, hmap.related.get_eq (by simp : "host" ∉ _),
    hmap.related.get_eq (by simp : "user" ∉ _)]
  refine alike_bind _ fun _ => alike_bind _ fun host => ?_
  refine alike_bind _ fun _ => alike_bind _ fun user => ?_
  -- The two credentials can be swapped, so both are there or neither is.
  have hpassword : Alike (Option.Rel (Writably (Swappable IsCredential))) _ _ :=
    hmap.get_field "password" Swappable.refl (by simp)
  have hkey : Alike (Option.Rel (Writably (Swappable IsCredential))) _ _ :=
    hmap.get_field "ssh_key" Swappable.refl (by simp)
  refine hpassword.bind fun o o' ho => ?_
  refine (Variable.agree_decodeField ho _).bind fun p p' hp => ?_
  refine hkey.bind fun o o' ho => ?_
  refine (Variable.agree_decodeField ho _).bind fun k k' hk => ?_
  refine .ok ?_
  simp only [Server.masked, hp, hk]

/-! ### Steps -/

namespace Step

/-- Environments that agree are both decoded, or fail at the same entry. -/
theorem agree_decodeEnvironment {es fs : List (Value × Value)}
    (h : Value.EntriesAgree (fun _ => Writably (Swappable IsPlain)) es fs) (index : Nat) :
    Alike (fun _ _ => True) (decodeEnvironment index es) (decodeEnvironment index fs) := by
  refine (alike_mapM (S := fun _ _ => True) (h.imp fun e f hef => ?_)).imp fun _ _ _ => trivial
  obtain ⟨k, v⟩ := e
  obtain ⟨l, w⟩ := f
  obtain ⟨rfl, rfl | ⟨hv, hw⟩, hboth⟩ := hef
  · exact .refl (fun _ => trivial) _
  rcases hboth with rfl | ⟨hv', hw'⟩
  · exact .refl (fun _ => trivial) _
  -- A plain value is decoded whatever it is; only other forms can be rejected.
  · simp only [decodeEntry, Variable.decode_of_isPlain hv hv', Variable.decode_of_isPlain hw hw']
    exact alike_bind _ fun _ => .ok trivial

/-- Steps are decoded from data and sources that agree. The environment is read from the data only
where there is no source, and there the data must be the same. -/
theorem agree_decode {data data' source source' : Value} (hdata : StepsAgree data data')
    (hsource : Writably StepsAgree source source') (hnull : source = .null → data = data')
    (shell : String) (index : Nat) :
    Alike (fun s t => s.masked = t.masked) (Step.decode data shell index source)
      (Step.decode data' shell index source') := by
  have hboth : Writably StepsAgree (source.orData data) (source'.orData data') := by
    refine ⟨hsource.related.orData hdata, ?_⟩
    cases hsource.related with
    | same =>
      cases source with
      | null => exact .inl (hnull rfl)
      | _ => exact .inl rfl
    | map => exact hsource.writable
  have henvironment : Alike (Option.Rel (Writably EnvironmentsAgree)) _ _ :=
    hboth.get_field "environment" .same (by simp)
  rw [Step.decode, Step.decode]
  simp only [Value.getD, hdata.get_eq (by simp : "name" ∉ _),
    hdata.get_eq (by simp : "shell" ∉ _), hdata.get_eq (by simp : "detach" ∉ _),
    hdata.get_eq (by simp : "depends_on" ∉ _), hdata.get_eq (by simp : "commands" ∉ _),
    hdata.get_eq (by simp : "failure" ∉ _), hdata.get_eq (by simp : "when" ∉ _)]
  refine henvironment.bind fun o o' ho => ?_
  refine (Writably.fields Swappable.refl (Writably.orEmpty ho)).bind fun es fs hes => ?_
  refine (agree_decodeEnvironment hes index).bind fun env env' _ => ?_
  -- From here on both read the same, and the environment goes into a field of its own.
  repeat refine alike_bind _ fun _ => ?_
  exact .ok rfl

end Step

/-! ### Pipelines -/

/-- What is known of the source of a document that is read from a text: it can be written, and in
the place of each step that is a container it has a container. -/
structure SourcesSteps (data source : Value) : Prop where
  isTruthy : source.isTruthy = true
  isWritable : source.isWritable = true
  steps {vs : List Value} (h : data.get "steps" = .ok (some (.seq vs))) :
    ∃ ws, source.get "steps" = .ok (some (.seq ws)) ∧
      List.Forall₂ (fun a b => a.isScalar = false → b.isScalar = false)
        (Value.items vs) (Value.items ws)

theorem orData_of_isTruthy {data source : Value} (h : source.isTruthy = true) :
    source.orData data = source := by
  cases source with
  | null => cases h
  | _ => rfl

namespace Pipeline

/-- Every step has the data and the source at its own position. -/
theorem agree_decodeSteps {ds ds' : List Value} (hdata : List.Forall₂ StepsAgree ds ds')
    {sources sources' : Value} (hsources : Writably (ItemsAgree StepsAgree) sources sources')
    (shell : String) (index : Nat)
    (hnull : ∀ i, sources.element (index + i) = .ok .null → ds[i]? = ds'[i]?) :
    Alike (fun ss ts => ss.map Step.masked = ts.map Step.masked)
      (decodeSteps shell sources index ds) (decodeSteps shell sources' index ds') := by
  induction hdata generalizing index with
  | nil => exact .ok rfl
  | @cons d d' ds ds' hd _ ih =>
    rw [decodeSteps, decodeSteps]
    have hfirst := (hsources.element .same index).and
      (P := fun source => source = .null → d = d') (Q := fun _ => True)
      (fun source hsource hnone => by simpa using hnull 0 (hnone ▸ hsource)) fun _ _ => trivial
    refine hfirst.bind fun source source' hsource => ?_
    refine (Step.agree_decode hd hsource.1 hsource.2.1 shell index).bind fun s t hst => ?_
    have hrest : ∀ i, sources.element (index + 1 + i) = .ok .null → ds[i]? = ds'[i]? := by
      intro i hi
      simpa using hnull (i + 1) (by rwa [Nat.add_comm i 1, ← Nat.add_assoc])
    refine (ih (index + 1) hrest).bind fun ss ts hss => .ok ?_
    rw [List.map_cons, List.map_cons, hst, hss]

/-- A step whose source is null is no container, and so it is the same in both documents. -/
theorem steps_eq_of_source_null {data source : Value} (hread : SourcesSteps data source)
    {sources o o' : Option Value} (hsources : source.get "steps" = .ok sources)
    (hsteps : data.get "steps" = .ok o) (h : Option.Rel (ItemsAgree StepsAgree) o o')
    {ds ds' : List Value} (hds : Value.elementsOrNone o = .ok ds)
    (hds' : Value.elementsOrNone o' = .ok ds') {i : Nat}
    (hnull : (orNoItems sources).element i = .ok .null) : ds[i]? = ds'[i]? := by
  cases h with
  | none => rw [Except.ok.inj (hds.symm.trans hds')]
  | some h =>
    cases h with
    | same => rw [Except.ok.inj (hds.symm.trans hds')]
    | @seq vs ws h =>
      rw [Value.elementsOrNone_seq] at hds hds'
      cases hds
      cases hds'
      obtain ⟨us, hus, hkinds⟩ := hread.steps hsteps
      rw [Except.ok.inj (hsources.symm.trans hus), orNoItems_seq, Value.element, Value.elements,
        Outcome.ok_bind] at hnull
      have hkind := forall₂_getElem? hkinds i
      have hstep := forall₂_getElem? h i
      generalize (Value.items us)[i]? = u at hnull hkind
      generalize (Value.items vs)[i]? = a at hkind hstep ⊢
      generalize (Value.items ws)[i]? = b at hstep ⊢
      cases hkind with
      | none => cases hnull
      | some hkind =>
        cases hnull
        cases hstep with
        | some hstep =>
          cases hstep with
          | same => rfl
          | map => cases hkind rfl

theorem agree_decode {data data' source source' : Value} (hdata : PipelinesAgree data data')
    (hsource : Writably PipelinesAgree source source') (hread : SourcesSteps data source) :
    Alike (fun p q => p.masked = q.masked) (Pipeline.decode data source)
      (Pipeline.decode data' source') := by
  have htruthy' : source'.isTruthy = true := by
    rw [← MapsAgree.isTruthy hsource.related]
    exact hread.isTruthy
  have hsteps : Alike (Option.Rel (ItemsAgree StepsAgree)) _ _ :=
    hdata.get_field "steps" .same (by simp)
  have hsources : Alike (Option.Rel (Writably (ItemsAgree StepsAgree))) _ _ :=
    hsource.get_field "steps" .same (by simp)
  have hserver : Alike (Option.Rel (Writably ServersAgree)) _ _ :=
    hsource.get_field "server" .same (by simp)
  rw [Pipeline.decode, Pipeline.decode, orData_of_isTruthy hread.isTruthy,
    orData_of_isTruthy htruthy']
  simp only [Value.getD, requiredField, hsource.related.get_eq (by simp : "platform" ∉ _),
    hsource.related.get_eq (by simp : "version" ∉ _),
    hsource.related.get_eq (by simp : "node" ∉ _),
    hdata.get_eq (by simp : "kind" ∉ _), hdata.get_eq (by simp : "type" ∉ _),
    hdata.get_eq (by simp : "name" ∉ _), hdata.get_eq (by simp : "depends_on" ∉ _),
    hdata.get_eq (by simp : "workspace" ∉ _), hdata.get_eq (by simp : "clone" ∉ _),
    hdata.get_eq (by simp : "trigger" ∉ _)]
  refine alike_bind _ fun _ => alike_bind _ fun platform => alike_bind _ fun _ => ?_
  -- What the sources of the steps are is needed again where the steps are decoded.
  refine (hsources.and (P := fun o => source.get "steps" = .ok o) (Q := fun _ => True)
    (fun _ h => h) fun _ _ => trivial).bind fun sources sources' hboth => ?_
  obtain ⟨hsources, hget, -⟩ := hboth
  repeat refine alike_bind _ fun _ => ?_
  refine hserver.bind fun o o' ho => ?_
  refine (Server.agree_decode ho).bind fun server server' hserver => ?_
  repeat refine alike_bind _ fun _ => ?_
  refine (hsteps.and (P := fun o => data.get "steps" = .ok o) (Q := fun _ => True)
    (fun _ h => h) fun _ _ => trivial).bind fun o o' hboth => ?_
  obtain ⟨ho, hgetData, -⟩ := hboth
  refine ((ItemsAgree.elementsOrNone .same ho).and (P := fun ds => Value.elementsOrNone o = .ok ds)
    (Q := fun ds => Value.elementsOrNone o' = .ok ds) (fun _ h => h) fun _ h => h).bind
    fun ds ds' hboth => ?_
  obtain ⟨hds, hitems, hitems'⟩ := hboth
  have hnull : ∀ i, (orNoItems sources).element (0 + i) = .ok .null → ds[i]? = ds'[i]? := by
    intro i hi
    rw [Nat.zero_add] at hi
    exact steps_eq_of_source_null hread hget hgetData ho hitems hitems' hi
  refine (agree_decodeSteps hds (Writably.orNoItems hsources) _ 0 hnull).bind
    fun ss ts hss => .ok ?_
  simp only [Pipeline.masked, hserver, hss]

/-! ### Lint rules -/

theorem isPresent_masked (v : Variable) : v.masked.isPresent = v.isPresent := by
  cases v with
  | literal text => by_cases h : text = "" <;> simp [Variable.masked, Variable.isPresent, h]
  | secret name => rfl
  | absent => rfl

theorem checkUnique_masked (seen : List Value) (steps : List Step) :
    checkUnique seen (steps.map Step.masked) = checkUnique seen steps := by
  induction steps generalizing seen with
  | nil => rfl
  | cons s steps ih =>
    rw [List.map_cons, checkUnique, checkUnique, ih]
    rfl

theorem checkAttached_masked (steps : List Step) :
    checkAttached (steps.map Step.masked) = checkAttached steps := by
  have hfind : (steps.map Step.masked).find? (·.detach.isTruthy)
      = (steps.find? (·.detach.isTruthy)).map Step.masked := List.find?_map ..
  rw [checkAttached, checkAttached, hfind]
  cases steps.find? (·.detach.isTruthy) <;> rfl

theorem checkServer_masked (s : Server) : checkServer s.masked = checkServer s := by
  simp only [checkServer, Server.masked, isPresent_masked]

/-- The lint rules do not look into credentials. -/
theorem lint_masked (p : Pipeline) : p.masked.lint = p.lint := by
  have hnamed : checkNamed p.masked.steps = checkNamed p.steps := by
    simp only [checkNamed, masked, List.all_map]
    rfl
  rw [lint, lint, hnamed]
  simp only [masked, checkUnique_masked, checkAttached_masked, checkServer_masked]

end Pipeline

/-! ### Documents -/

/-- Two documents with one label and of one kind between whose values and sources `R` holds. -/
structure Document.AgreesBy (kind : String) (R : Value → Value → Prop) (d d' : Document) :
    Prop where
  kind : d.kind = kind
  label : d' = { d with data := d'.data, source := d'.source }
  data : R d.data d'.data
  source : R d.source d'.source

/-- Two documents that are the same, or pipelines or secrets that are the same but for
credentials. -/
inductive Document.Agrees : Document → Document → Prop
  | same (d : Document) : Agrees d d
  | pipeline {d d' : Document} (h : AgreesBy "pipeline" PipelinesAgree d d')
    (hread : SourcesSteps d.data d.source) (hwritable : d'.source.isWritable = true) : Agrees d d'
  | secret {d d' : Document} (h : AgreesBy "secret" SecretsAgree d d') : Agrees d d'

/-- The label of a document is read from fields that hold no credentials. -/
theorem Document.agree_ofValue {kind : String}
    {places : List (String × (Value → Value → Prop))} {data data' source source' : Value}
    (hkind : data.get "kind" = .ok (some (.str kind)))
    (hdata : MapsAgree (Value.AtFields places) data data')
    (hsource : MapsAgree (Value.AtFields places) source source')
    (hplaces : ∀ name ∈ ["kind", "type", "version", "name"], name ∉ places.map Prod.fst)
    (index : Nat) :
    Alike (Document.AgreesBy kind (MapsAgree (Value.AtFields places)))
      (Document.ofValue data index source) (Document.ofValue data' index source') := by
  have hboth := hsource.orData hdata
  rw [Document.ofValue, Document.ofValue, ← hdata.get_eq (hplaces "kind" (by simp)),
    ← hdata.get_eq (hplaces "type" (by simp)), hkind]
  simp only [Outcome.ok_bind, label, hboth.get_eq (hplaces "version" (by simp)),
    hboth.get_eq (hplaces "name" (by simp))]
  repeat refine alike_bind _ fun _ => ?_
  exact .ok ⟨rfl, rfl, hdata, hboth⟩

theorem exists_map_of_get {v : Value} {name : String} {o : Option Value}
    (h : v.get name = .ok o) : ∃ es, v = .map es := by
  cases v with
  | map es => exact ⟨es, rfl⟩
  | _ => cases h

/-- A document with a kind is not empty, and neither is its source. -/
theorem sourcesSteps_of_kind {v : SourcedValue} {kind : Value}
    (hkind : v.data.get "kind" = .ok (some kind)) (hv : v.IsSourced) (hsteps : v.HasStepSources) :
    SourcesSteps v.data v.source := by
  obtain ⟨es, hes⟩ := exists_map_of_get hkind
  obtain ⟨fs, hfs, hwritable⟩ := hv ⟨es, hes⟩
  refine ⟨hsteps.isTruthy hes ?_, hfs ▸ hwritable, hsteps.steps⟩
  rintro rfl
  rw [hes] at hkind
  cases hkind

/-- Documents of two texts that agree are split off as documents that agree. -/
theorem Yaml.SourcedValue.Agrees.ofValue {v w : SourcedValue} (h : v.Agrees w) (hv : v.IsSourced)
    (hsteps : v.HasStepSources) (hw : w.IsSourced) (index : Nat) :
    Alike Document.Agrees (Document.ofValue v.data index v.source)
      (Document.ofValue w.data index w.source) := by
  cases h with
  | same => exact .refl .same _
  | pipeline hkind hdata hsource =>
    have hread := sourcesSteps_of_kind hkind hv hsteps
    obtain ⟨es, hes⟩ := exists_map_of_get hkind
    obtain ⟨gs, hgs, hwritable⟩ := hw (MapsAgree.exists_map (hes ▸ hdata))
    refine ((Document.agree_ofValue hkind hdata hsource (by simp) index).and
      (fun _ => Document.ofValue_parts) fun _ => Document.ofValue_parts).imp ?_
    rintro d d' ⟨h, ⟨hd, hs⟩, hd', hs'⟩
    refine .pipeline h ?_ ?_
    · rw [hd, hs, orData_of_isTruthy hread.isTruthy]
      exact hread
    · rw [hs', hgs]
      exact hwritable
  | secret hkind hdata hsource =>
    exact (Document.agree_ofValue hkind hdata hsource (by simp) index).imp fun _ _ => .secret

theorem textField_congr {v w : Value} {name : String} (h : v.get name = w.get name)
    (fallback : String) : textField v name fallback = textField w name fallback := by
  rw [textField, textField, h]

/-- Of two texts in the same field both are read. -/
theorem agree_textField {v w : Value} {name : String}
    (h : Alike (Option.Rel (Swappable fun v => ∃ s, v = .str s)) (v.get name) (w.get name))
    (fallback : String) :
    Alike (fun _ _ => True) (textField v name fallback) (textField w name fallback) := by
  refine h.bind fun o o' ho => ?_
  cases ho with
  | none => exact .ok trivial
  | some hvw =>
    rcases hvw with rfl | ⟨⟨s, rfl⟩, t, rfl⟩
    · exact .refl (fun _ => trivial) _
    · exact .ok trivial

namespace Document.AgreesBy

variable {d d' : Document}

theorem agree_pipeline (h : AgreesBy "pipeline" PipelinesAgree d d')
    (hread : SourcesSteps d.data d.source) (hwritable : d'.source.isWritable = true) :
    Alike (fun p q => p.masked = q.masked) (Pipeline.ofDocumentLinted d)
      (Pipeline.ofDocumentLinted d') := by
  have hname : d'.name = d.name := by rw [h.label]
  have hsource : Writably PipelinesAgree d.source d'.source :=
    ⟨h.source, .inr ⟨hread.isWritable, hwritable⟩⟩
  have htruthy' : d'.source.isTruthy = true := by
    rw [← MapsAgree.isTruthy h.source]
    exact hread.isTruthy
  rw [Pipeline.ofDocumentLinted, Pipeline.ofDocumentLinted, Pipeline.ofDocument,
    Pipeline.ofDocument, hname, Schema.overlooks_pipeline.check h.data, if_pos hread.isTruthy,
    if_pos htruthy']
  refine Alike.bind (alike_bind _ fun _ => Pipeline.agree_decode h.data hsource hread)
    fun p q hpq => ?_
  -- The rules see the decoded pipelines, of which only the masked forms are equal.
  rw [← p.lint_masked, ← q.lint_masked, hpq]
  exact alike_bind _ fun _ => .ok hpq

theorem agree_secret (h : AgreesBy "secret" SecretsAgree d d') :
    Alike (fun s t => s.masked = t.masked) (Secret.decode d) (Secret.decode d') := by
  have hname : d'.name = d.name := by rw [h.label]
  have htype : d'.type = d.type := by rw [h.label]
  have hversion : d'.version = d.version := by rw [h.label]
  have hdata : Alike (Option.Rel (Swappable fun v => ∃ s, v = .str s)) _ _ :=
    MapsAgree.get_field h.data "data" Swappable.refl (by simp)
  rw [Secret.decode, Secret.decode, hname, htype, hversion,
    Schema.overlooks_secret.check h.data]
  rw [MapsAgree.get_eq h.data (by simp : "get" ∉ _),
    textField_congr (MapsAgree.get_eq h.data (by simp : "name" ∉ _))]
  refine alike_bind _ fun _ => alike_bind _ fun _ => alike_bind _ fun location => ?_
  refine alike_bind _ fun name => ?_
  exact (agree_textField hdata "").bind fun _ _ _ => .ok rfl

end Document.AgreesBy

/-- Documents that agree are rejected with the same fault, or what they hold is the same but for
credentials. -/
theorem Document.Agrees.resolve {d d' : Document} (h : d.Agrees d') :
    Alike (fun o o' => o.map Resource.masked = o'.map Resource.masked)
      (defaultRegistry.resolve d) (defaultRegistry.resolve d') := by
  cases h with
  | same => exact alike_self _ _
  | pipeline h hread hwritable =>
    have hkind' : d'.kind = "pipeline" := by rw [h.label, h.kind]
    have htype : d'.type = d.type := by rw [h.label]
    have hown : Pipeline.isOwn d' = Pipeline.isOwn d := by
      rw [Pipeline.isOwn, Pipeline.isOwn, hkind', h.kind, htype]
    -- Which decoder is called is decided by the label, and documents that agree share it.
    rw [resolve_defaultRegistry, resolve_defaultRegistry, h.kind, hkind', hown]
    simp only [Secret.documentKind, Signature.documentKind, String.reduceEq, if_false]
    split
    · refine (h.agree_pipeline hread hwritable).map fun p q hpq => ?_
      simp only [Option.map_some, Resource.masked, hpq]
    · exact .ok rfl
  | secret h =>
    have hkind' : d'.kind = "secret" := by rw [h.label, h.kind]
    rw [resolve_defaultRegistry, resolve_defaultRegistry, h.kind, hkind']
    simp only [Secret.documentKind, String.reduceEq, if_false, if_true]
    refine h.agree_secret.map fun s t hst => ?_
    simp only [Option.map_some, Resource.masked, hst]

theorem Document.Agrees.label {d d' : Document} (h : d.Agrees d') :
    d.kind = d'.kind ∧ d.type = d'.type ∧ d.name = d'.name := by
  cases h with
  | same => exact ⟨rfl, rfl, rfl⟩
  | pipeline h | secret h =>
    rw [h.label]
    exact ⟨rfl, rfl, rfl⟩

/-- The log says of both the same. -/
theorem Document.Agrees.resolutionLog {d d' : Document} (h : d.Agrees d') :
    Registry.resolutionLog d (defaultRegistry.resolve d)
      = Registry.resolutionLog d' (defaultRegistry.resolve d') := by
  obtain ⟨hkind, htype, hname⟩ := h.label
  have hresolve := h.resolve
  revert hresolve
  generalize defaultRegistry.resolve d = x, defaultRegistry.resolve d' = y
  intro hresolve
  cases hresolve with
  | error => rfl
  | @ok o o' ho =>
    cases o <;> cases o' <;> simp [Registry.resolutionLog, hkind, htype, hname] at ho ⊢

end PipelineManifest
