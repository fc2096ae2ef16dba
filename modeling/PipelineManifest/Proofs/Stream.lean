import PipelineManifest.Proofs.Isolation
import PipelineManifest.Proofs.Rejection
import PipelineManifest.Proofs.Yaml.Succession

/-!
# `PipelineManifest.Proofs.Stream`: a text is read in three passes

First the YAML of the whole text is read, document by document; then each document is looked at;
then each of them is decoded. Every pass goes over all documents and stops at the first that it
cannot take. So the fault that is reported is one of the earliest pass that fails, and in this pass
one of the first document: a text that breaks the rules of YAML in its last document is reported for
that, even if its first document is not a mapping.

* `IsDocument`, `Offends`: the values that documents can have, and what is wrong with the others.
* `Describes`: the document that is split off for a value.
* `splitText_eq_ok_iff`, `splitText_eq_error_iff`: the second pass.
* `result_parse_append`: the third pass over one stream after another.
* `parse_passes`: all of them.
-/

set_option autoImplicit false

namespace PipelineManifest

open Value (field?)
open Yaml (Defect ReadsUntil SourcedValue checkCharacters readStream)

/-! ### Values of documents -/

/-- The values that documents can have: nothing, or a mapping whose kind and type are texts or
missing. -/
def IsDocument (v : Value) : Prop :=
  v = .null ∨ ∃ es, v = .map es ∧ IsLabel (field? "kind" es) ∧ IsLabel (field? "type" es)

/-- What is wrong with any other value. -/
inductive Offends (v : Value) : String → Prop
  | shape (hnull : v ≠ .null) (hmap : ∀ es, v ≠ .map es) :
    Offends v (": expected a mapping, got " ++ v.kindName)
  | kind (es : List (Value × Value)) (hes : v = .map es) (hkind : ¬IsLabel (field? "kind" es)) :
    Offends v ": 'kind' must be a string"
  | type (es : List (Value × Value)) (hes : v = .map es) (hkind : IsLabel (field? "kind" es))
    (htype : ¬IsLabel (field? "type" es)) : Offends v ": 'type' must be a string"

/-- The text of a kind or a type, which is empty where there is none. -/
def labelText : Option Value → String
  | some (.str s) => s
  | _ => ""

/-- The document that is split off for a value: the value and its source as they are, with kind and
type beside them. -/
structure Describes (v : SourcedValue) (d : Document) : Prop where
  data : d.data = v.data
  source : d.source = v.source
  label : ∃ es, v.data = .map es ∧ d.kind = labelText (field? "kind" es) ∧
    d.type = labelText (field? "type" es)

theorem label_of_isLabel {v : Option Value} (h : IsLabel v) (field place : String) :
    Document.label v field place = .ok (labelText v) := by
  rcases h with rfl | rfl | ⟨s, rfl⟩ <;> rfl

theorem label_of_not_isLabel {v : Option Value} (h : ¬IsLabel v) (field place : String) :
    Document.label v field place
      = .error (.malformedOne (place ++ ": '" ++ field ++ "' must be a string")) := by
  unfold Document.label
  split
  · exact absurd (.inl rfl) h
  · exact absurd (.inr (.inl rfl)) h
  · exact absurd (.inr (.inr ⟨_, rfl⟩)) h
  · rfl

theorem isDocument_or_offends (v : Value) : IsDocument v ∨ ∃ reason, Offends v reason := by
  by_cases hmap : ∃ es, v = .map es
  · obtain ⟨es, hes⟩ := hmap
    by_cases hkind : IsLabel (field? "kind" es)
    · by_cases htype : IsLabel (field? "type" es)
      · exact .inl (.inr ⟨es, hes, hkind, htype⟩)
      · exact .inr ⟨_, .type es hes hkind htype⟩
    · exact .inr ⟨_, .kind es hes hkind⟩
  · by_cases hnull : v = .null
    · exact .inl (.inl hnull)
    · exact .inr ⟨_, .shape hnull fun es hes => hmap ⟨es, hes⟩⟩

/-! ### One document -/

section One

variable {v : SourcedValue} (hsource : v.IsSourced)
include hsource

theorem splits_iff_isDocument : Splits v ↔ IsDocument v.data := splits_iff hsource

/-- A value that no document can have is reported with the position of the document. -/
theorem splitDocuments_of_offends {reason : String} (h : Offends v.data reason) (index : Nat) :
    splitDocuments index [v] = .error (.malformedOne (Document.place index ++ reason)) := by
  -- A mapping is looked at through its kind first.
  have hvalue (es : List (Value × Value)) (hes : v.data = .map es) {fault : Fault}
      (hfault : Document.ofValue v.data index v.source = .error fault) :
      splitDocuments index [v] = .error fault := by
    rw [splitDocuments, hfault]
    simp only [hes]
    rfl
  cases h with
  | shape hnull hmap =>
    rw [splitDocuments]
    split
    · exact absurd ‹_› hnull
    · exact absurd ‹_› (hmap _)
    · rw [String.append_assoc]
      rfl
  | kind es hes hkind =>
    obtain ⟨fs, hfs, -⟩ := hsource ⟨es, hes⟩
    refine hvalue es hes ?_
    rw [hes, hfs, Document.ofValue]
    simp only [Value.get_map, Outcome.ok_bind, label_of_not_isLabel hkind, Outcome.error_bind,
      String.append_assoc]
    rfl
  | type es hes hkind htype =>
    obtain ⟨fs, hfs, -⟩ := hsource ⟨es, hes⟩
    refine hvalue es hes ?_
    rw [hes, hfs, Document.ofValue]
    simp only [Value.get_map, Outcome.ok_bind, label_of_isLabel hkind, label_of_not_isLabel htype,
      Outcome.error_bind, String.append_assoc]
    rfl

/-- What is split off for a value is the document that it describes. -/
theorem documentsOf_of_isDocument (h : IsDocument v.data) :
    v.data = .null ∧ documentsOf v = [] ∨
      v.data ≠ .null ∧ ∃ d, documentsOf v = [d] ∧ Describes v d := by
  rcases h with hnull | ⟨es, hes, hkind, htype⟩
  · refine .inl ⟨hnull, ?_⟩
    rw [documentsOf, splitDocuments, hnull]
    rfl
  · obtain ⟨fs, hfs, hwritable⟩ := hsource ⟨es, hes⟩
    refine .inr ⟨by simp [hes], ?_⟩
    have hvalue : ∃ d, Document.ofValue v.data 0 v.source = .ok d ∧ Describes v d := by
      obtain ⟨version, name, hofValue⟩ := Document.exists_ofValue_map hwritable
      rw [hes, hfs, hofValue, label_of_isLabel hkind, label_of_isLabel htype]
      exact ⟨_, rfl, hes.symm, hfs.symm, es, hes, rfl, rfl⟩
    obtain ⟨d, hd, hdescribes⟩ := hvalue
    refine ⟨d, ?_, hdescribes⟩
    rw [documentsOf, splitDocuments, hd]
    simp only [hes]
    rfl

end One

/-! ### The second pass -/

/-- The values of documents that are not empty. -/
def present (vs : List SourcedValue) : List SourcedValue := vs.filter fun v => v.data ≠ .null

/-- All values can be those of documents, or there is a first one that cannot. -/
theorem forall_isDocument_or_first (vs : List SourcedValue) :
    (∀ v ∈ vs, IsDocument v.data) ∨
      ∃ before v after reason, vs = before ++ v :: after ∧ (∀ u ∈ before, IsDocument u.data) ∧
        Offends v.data reason := by
  induction vs with
  | nil => exact .inl (by simp)
  | cons v vs ih =>
    rcases isDocument_or_offends v.data with hv | ⟨reason, hv⟩
    · rcases ih with h | ⟨before, u, after, reason, rfl, hbefore, hu⟩
      · exact .inl (List.forall_mem_cons.mpr ⟨hv, h⟩)
      · exact .inr ⟨v :: before, u, after, reason, rfl, List.forall_mem_cons.mpr ⟨hv, hbefore⟩, hu⟩
    · exact .inr ⟨[], v, vs, reason, rfl, by simp, hv⟩

section Split

variable {text : String} {vs : List SourcedValue} (hread : readStream text = .ok vs)
include hread

theorem splitText_of_readStream : splitText text = splitDocuments 0 vs := by
  rw [splitText, hread]
  rfl

theorem splitText_of_forall (h : ∀ v ∈ vs, IsDocument v.data) :
    splitText text = .ok (vs.flatMap documentsOf) := by
  have hsource := Yaml.isSourced_of_readStream hread
  rw [splitText_of_readStream hread]
  exact splitDocuments_eq_ok 0 fun v hv => (splits_iff_isDocument (hsource v hv)).mpr (h v hv)

theorem splitText_of_first {before after : List SourcedValue} {v : SourcedValue} {reason : String}
    (hvs : vs = before ++ v :: after) (hbefore : ∀ u ∈ before, IsDocument u.data)
    (hv : Offends v.data reason) :
    splitText text = .error (.malformedOne (Document.place before.length ++ reason)) := by
  subst hvs
  have hsource := Yaml.isSourced_of_readStream hread
  rw [splitText_of_readStream hread]
  refine splitDocuments_eq_error 0 (fun u hu => ?_) ?_
  · exact (splits_iff_isDocument (hsource u (by simp [hu]))).mpr (hbefore u hu)
  · rw [Nat.zero_add]
    exact splitDocuments_of_offends (hsource v (by simp)) hv _

/-- A text is split if each of its values can be that of a document. -/
theorem splitText_eq_ok_iff :
    (∃ ds, splitText text = .ok ds) ↔ ∀ v ∈ vs, IsDocument v.data := by
  constructor
  · rintro ⟨ds, hds⟩
    rcases forall_isDocument_or_first vs with h | ⟨before, v, after, reason, hvs, hbefore, hv⟩
    · exact h
    · rw [splitText_of_first hread hvs hbefore hv] at hds
      cases hds
  · intro h
    exact ⟨_, splitText_of_forall hread h⟩

/-- There is one document for each value that is not empty, in the same order. -/
theorem describes_of_splitText {ds : List Document} (h : splitText text = .ok ds) :
    List.Forall₂ Describes (present vs) ds := by
  have hall := (splitText_eq_ok_iff hread).mp ⟨ds, h⟩
  have hsource := Yaml.isSourced_of_readStream hread
  rw [splitText_of_forall hread hall] at h
  cases h
  -- From here on only the values count, one by one.
  clear hread
  induction vs with
  | nil => exact .nil
  | cons v vs ih =>
    obtain ⟨hv, hvs⟩ := List.forall_mem_cons.mp hall
    obtain ⟨hvsource, hvssource⟩ := List.forall_mem_cons.mp hsource
    rw [List.flatMap_cons, present, List.filter_cons]
    rcases documentsOf_of_isDocument hvsource hv with ⟨hnull, hnone⟩ | ⟨hnull, d, hd, hdescribes⟩
    · rw [if_neg (by simpa using hnull), hnone, List.nil_append]
      exact ih hvs hvssource
    · rw [if_pos (by simpa using hnull), hd]
      exact .cons hdescribes (ih hvs hvssource)

/-- Otherwise the first value that no document can have is reported. -/
theorem splitText_eq_error_iff {fault : Fault} :
    splitText text = .error fault ↔
      ∃ before v after reason, vs = before ++ v :: after ∧ (∀ u ∈ before, IsDocument u.data) ∧
        Offends v.data reason ∧
        fault = .malformedOne (Document.place before.length ++ reason) := by
  constructor
  · intro h
    rcases forall_isDocument_or_first vs with hall | ⟨before, v, after, reason, hvs, hbefore, hv⟩
    · rw [splitText_of_forall hread hall] at h
      cases h
    · rw [splitText_of_first hread hvs hbefore hv] at h
      cases h
      exact ⟨before, v, after, reason, hvs, hbefore, hv, rfl⟩
  · rintro ⟨before, v, after, reason, hvs, hbefore, hreason, rfl⟩
    exact splitText_of_first hread hvs hbefore hreason

end Split

/-! ### The third pass -/

section Parse

variable {r : Registry Resource} {text : String}

/-- The documents of one stream after those of another hold the resources of the other, and then
their own. -/
theorem result_parse_append {text₁ text₂ : String} {vs₁ vs₂ : List SourcedValue} {m₁ m₂ : Manifest}
    (h₁ : readStream text₁ = .ok vs₁) (h₂ : readStream text₂ = .ok vs₂)
    (h : readStream text = .ok (vs₁ ++ vs₂)) (hm₁ : (Manifest.parse r text₁).result = .ok m₁)
    (hm₂ : (Manifest.parse r text₂).result = .ok m₂) :
    (Manifest.parse r text).result = .ok { resources := m₁.resources ++ m₂.resources } := by
  obtain ⟨ds₁, hds₁, hall₁, rfl⟩ := result_parse_eq_ok_iff.mp hm₁
  obtain ⟨ds₂, hds₂, hall₂, rfl⟩ := result_parse_eq_ok_iff.mp hm₂
  have hvs₁ := (splitText_eq_ok_iff h₁).mp ⟨ds₁, hds₁⟩
  have hvs₂ := (splitText_eq_ok_iff h₂).mp ⟨ds₂, hds₂⟩
  rw [splitText_of_forall h₁ hvs₁] at hds₁
  rw [splitText_of_forall h₂ hvs₂] at hds₂
  cases hds₁
  cases hds₂
  -- What is split off for a value does not depend on its position.
  have hds := splitText_of_forall h (List.forall_mem_append.mpr ⟨hvs₁, hvs₂⟩)
  refine result_parse_eq_ok_iff.mpr ⟨_, hds, ?_, ?_⟩
  · rw [List.flatMap_append]
    exact List.forall_mem_append.mpr ⟨hall₁, hall₂⟩
  · rw [List.flatMap_append, Registry.resolved_append]

end Parse

/-! ### All passes -/

/-- What comes of a text whose documents can all be read: it is split if each value can be that of a
document, into one document for each value that is not empty; or the first value that cannot is
reported, with its position among all documents. -/
structure SplitsInto (text : String) (vs : List SourcedValue) : Prop where
  ok_iff : (∃ ds, splitText text = .ok ds) ↔ ∀ v ∈ vs, IsDocument v.data
  describes : ∀ ds, splitText text = .ok ds → List.Forall₂ Describes (present vs) ds
  error_iff : ∀ fault, splitText text = .error fault ↔
    ∃ before v after reason, vs = before ++ v :: after ∧ (∀ u ∈ before, IsDocument u.data) ∧
      Offends v.data reason ∧ fault = .malformedOne (Document.place before.length ++ reason)

/-- What comes of a text with a registry: the resources of all its documents in order, or the fault
of being split, or that of the first document that cannot be resolved. -/
structure ParsesWith (r : Registry Resource) (text : String) : Prop where
  ok_iff : ∀ m, (Manifest.parse r text).result = .ok m ↔
    ∃ ds, splitText text = .ok ds ∧ (∀ d ∈ ds, ∃ resource?, r.resolve d = .ok resource?) ∧
      m = { resources := r.resolved ds }
  error_iff : ∀ fault, (Manifest.parse r text).result = .error fault ↔
    splitText text = .error fault ∨
      ∃ before d after, splitText text = .ok (before ++ d :: after) ∧
        (∀ e ∈ before, ∃ resource?, r.resolve e = .ok resource?) ∧ r.resolve d = .error fault

/-- The three passes over a text. Reading the YAML of a text whose characters are allowed comes to
the end, or stops behind some documents with a defect. At the end the documents are split off; a
break of the rules of YAML is reported instead of anything that is wrong with the documents before
it. Then the documents are resolved. A stream that holds the documents of two others, one after the
other, is read as what both hold. -/
theorem parse_passes (text : String) :
    (checkCharacters text = .ok () ↔ ∃ vs stop, ReadsUntil text vs stop) ∧
    (∀ vs, ReadsUntil text vs none → SplitsInto text vs) ∧
    (∀ vs, ReadsUntil text vs (some .rejected) → splitText text = .error syntaxFault) ∧
    ∀ r : Registry Resource, ParsesWith r text ∧
      ∀ text₁ text₂ vs₁ vs₂ m₁ m₂,
        ReadsUntil text₁ vs₁ none → ReadsUntil text₂ vs₂ none →
        ReadsUntil text (vs₁ ++ vs₂) none →
        (Manifest.parse r text₁).result = .ok m₁ → (Manifest.parse r text₂).result = .ok m₂ →
        (Manifest.parse r text).result = .ok { resources := m₁.resources ++ m₂.resources } := by
  refine ⟨⟨Yaml.exists_readsUntil, fun ⟨_, _, h⟩ => h.1⟩, ?_, ?_, ?_⟩
  · intro vs h
    have hread := Yaml.readStream_eq_ok_iff.mpr h
    exact {
      ok_iff := splitText_eq_ok_iff hread
      describes := fun ds hds => describes_of_splitText hread hds
      error_iff := fun fault => splitText_eq_error_iff hread }
  · intro vs h
    exact splitText_of_error (Yaml.readStream_eq_error_iff.mpr (.inr ⟨vs, h⟩))
  · intro r
    refine ⟨⟨fun m => result_parse_eq_ok_iff, fun fault => result_parse_eq_error_iff⟩, ?_⟩
    intro text₁ text₂ vs₁ vs₂ m₁ m₂ h₁ h₂ h hm₁ hm₂
    exact result_parse_append (Yaml.readStream_eq_ok_iff.mpr h₁) (Yaml.readStream_eq_ok_iff.mpr h₂)
      (Yaml.readStream_eq_ok_iff.mpr h) hm₁ hm₂

/-- An empty document, a list, and a mapping without a kind. -/
def listSecondText : String := "---\n---\n- x\n---\nname: s\n"

/-- A document with a secret. -/
def secretText (name : String) : String := "---\nkind: secret\nname: " ++ name ++ "\n"

/-- The list is reported as the second document, but not where something behind it is not YAML. Two
secrets are the resources of two streams. -/
theorem parse_passes_listSecond :
    splitText listSecondText
        = .error (.malformedOne "document 2: expected a mapping, got list") ∧
      splitText (listSecondText ++ "---\n[") = .error syntaxFault ∧
      ∃ m, (Manifest.parse defaultRegistry (secretText "a" ++ secretText "b")).result = .ok m ∧
        m.resources.length = 2 := by
  have hstream : ((readStream listSecondText).toOption.any fun vs =>
      vs.map (·.data) = [.null, .seq [.str "x"], .map [(.str "name", .str "s")]]) = true := by
    decide +kernel
  have hbroken : readStream (listSecondText ++ "---\n[") = .error .rejected :=
    Outcome.eq_error_of_satisfies (by decide +kernel)
  have hallowed : checkCharacters (listSecondText ++ "---\n[") = .ok () :=
    Outcome.eq_ok_of_toOption (by decide +kernel)
  have hsecrets : ((readStream (secretText "a")).toOption.any fun vs =>
      (readStream (secretText "b")).toOption.any fun ws =>
        (readStream (secretText "a" ++ secretText "b")).toOption = some (vs ++ ws)) = true := by
    decide +kernel
  have hparsed (name : String) (hname : name = "a" ∨ name = "b") :
      ((Manifest.parse defaultRegistry (secretText name)).result.toOption.any fun m =>
        m.resources.length = 1) = true := by
    rcases hname with rfl | rfl <;> decide +kernel
  refine ⟨?_, ?_, ?_⟩
  · obtain ⟨vs, hvs, hdata⟩ := Outcome.exists_of_any hstream
    obtain ⟨v, ws, rfl, hv, hws⟩ := List.map_eq_cons_iff.mp (of_decide_eq_true hdata)
    obtain ⟨w, us, rfl, hw, -⟩ := List.map_eq_cons_iff.mp hws
    have hbefore : ∀ u ∈ [v], IsDocument u.data := List.forall_mem_singleton.mpr (.inl hv)
    have hoffends : Offends w.data ": expected a mapping, got list" := by
      rw [hw]
      exact .shape (by simp) (by simp)
    have hmessage : "document 2: expected a mapping, got list"
        = Document.place 1 ++ ": expected a mapping, got list" := by
      decide +kernel
    exact (((parse_passes _).2.1 _ (Yaml.readStream_eq_ok_iff.mp hvs)).error_iff _).mpr
      ⟨[v], w, us, _, rfl, hbefore, hoffends, congrArg Fault.malformedOne hmessage⟩
  · obtain hforbidden | ⟨vs, hvs⟩ := Yaml.readStream_eq_error_iff.mp hbroken
    · rw [hallowed] at hforbidden
      cases hforbidden
    · exact (parse_passes _).2.2.1 vs hvs
  · obtain ⟨vs, hvs, hrest⟩ := Outcome.exists_of_any hsecrets
    obtain ⟨ws, hws, hboth⟩ := Outcome.exists_of_any hrest
    obtain ⟨m₁, hm₁, hlength₁⟩ := Outcome.exists_of_any (hparsed "a" (.inl rfl))
    obtain ⟨m₂, hm₂, hlength₂⟩ := Outcome.exists_of_any (hparsed "b" (.inr rfl))
    have hall := Yaml.readStream_eq_ok_iff.mp
      (Outcome.eq_ok_of_toOption (of_decide_eq_true hboth))
    have happend := ((parse_passes (secretText "a" ++ secretText "b")).2.2.2 defaultRegistry).2
    refine ⟨_, happend _ _ vs ws m₁ m₂ (Yaml.readStream_eq_ok_iff.mp hvs)
      (Yaml.readStream_eq_ok_iff.mp hws) hall hm₁ hm₂, ?_⟩
    rw [List.length_append, of_decide_eq_true hlength₁, of_decide_eq_true hlength₂]

end PipelineManifest
