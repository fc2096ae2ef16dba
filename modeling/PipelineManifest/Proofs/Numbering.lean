import PipelineManifest.Proofs.Stream

/-!
# `PipelineManifest.Proofs.Numbering`: the numbers of documents in messages

A message of a validation calls the document that it is about by a number. Two passes give out
numbers. Splitting counts all documents of a file. Resolving sees only what is left after the empty
ones are dropped, and counts that. So a number that comes from resolving is the place of the
document in the file only if no empty document stands before it; else it is too small, and the
document that has this place is another one.

* `RefusedAt`, `RejectedAt`: the document at an index that is refused by either pass.
* `shownNumber`: the number that resolving gives out, and `shownNumber_eq_iff` when it is right.
* `exists_indices`: the messages of resolving, one for each rejected document.
* `ofFile_numbers`: the messages of the validation of a file.
-/

set_option autoImplicit false

namespace PipelineManifest

open Yaml (SourcedValue readStream)

section Messages

variable (r : Registry Resource) (vs : List SourcedValue)

/-- A message of splitting about the document at an index, which it calls by a number. -/
def RefusedAt (index number : Nat) (error : String) : Prop :=
  ∃ v reason, vs[index]? = some v ∧ Offends v.data reason ∧
    error = "document " ++ toString number ++ reason

/-- What is split off for the value at an index is resolved with a fault. -/
def RejectedAt (index : Nat) (d : Document) (fault : Fault) : Prop :=
  ∃ v, vs[index]? = some v ∧ documentsOf v = [d] ∧ r.resolve d = .error fault

/-- A message of resolving about the document at an index, which it calls by a number. -/
def ReportedAt (index number : Nat) (error : String) : Prop :=
  ∃ d fault message, RejectedAt r vs index d fault ∧ fault.message? = some message ∧
    error = Validation.label number d ++ ": " ++ message

/-- The number that resolving gives the document at an index: its place among those that are not
empty. -/
def shownNumber (index : Nat) : Nat := (present (vs.take index)).length + 1

end Messages

/-! ### The numbers -/

section Numbers

variable {vs : List SourcedValue} {v : SourcedValue}

theorem present_cons_of_null (h : v.data = .null) : present (v :: vs) = present vs := by
  simp [present, h]

theorem present_cons_of_ne (h : v.data ≠ .null) : present (v :: vs) = v :: present vs := by
  simp [present, h]

/-- The number is the place in the file exactly when no empty document stands before it. -/
theorem shownNumber_eq_iff {i : Nat} (hi : i < vs.length) :
    shownNumber vs i = i + 1 ↔ ∀ u ∈ vs.take i, u.data ≠ .null := by
  have hlength : (vs.take i).length = i := by
    rw [List.length_take]
    omega
  rw [shownNumber, Nat.add_right_cancel_iff, present]
  constructor
  · intro h
    have hall : (vs.take i).filter (fun v => decide (v.data ≠ .null)) = vs.take i :=
      List.filter_sublist.eq_of_length (h.trans hlength.symm)
    simpa using List.filter_eq_self.mp hall
  · intro h
    rw [List.filter_eq_self.mpr (by simpa using h), hlength]

/-- The number is never larger than the place in the file. -/
theorem shownNumber_le {i : Nat} : shownNumber vs i ≤ i + 1 := by
  have hfilter : (present (vs.take i)).length ≤ (vs.take i).length := List.length_filter_le _ _
  have htake := List.length_take_le i vs
  rw [shownNumber]
  omega

end Numbers

/-! ### The messages of resolving -/

section Resolving

variable {r : Registry Resource} {vs : List SourcedValue} {v : SourcedValue}

theorem rejectedAt_succ_iff {i : Nat} {d : Document} {fault : Fault} :
    RejectedAt r (v :: vs) (i + 1) d fault ↔ RejectedAt r vs i d fault := by
  simp [RejectedAt]

theorem reportedAt_succ_iff {i n : Nat} {error : String} :
    ReportedAt r (v :: vs) (i + 1) n error ↔ ReportedAt r vs i n error := by
  simp [ReportedAt, rejectedAt_succ_iff]

/-- Indices of the documents that are rejected, with their messages; the first document is called by
`position`. -/
structure Reports (r : Registry Resource) (vs : List SourcedValue) (position : Nat)
    (indices : List Nat) (errors : List String) : Prop where
  increasing : indices.Pairwise (· < ·)
  messages : List.Forall₂
    (fun i error => ReportedAt r vs i (position + (present (vs.take i)).length) error)
    indices errors
  rejected : ∀ i, i ∈ indices ↔ ∃ d fault, RejectedAt r vs i d fault

theorem Reports.nil (position : Nat) : Reports r [] position [] [] where
  increasing := .nil
  messages := .nil
  rejected i := by simp [RejectedAt]

/-- A document about which there is no message; it may be empty, and then it has no number. -/
theorem Reports.skip {position next : Nat} {indices : List Nat} {errors : List String}
    (h : Reports r vs next indices errors)
    (hnumber : ∀ us, next + (present us).length = position + (present (v :: us)).length)
    (hv : ∀ d fault, documentsOf v = [d] → r.resolve d ≠ .error fault) :
    Reports r (v :: vs) position (indices.map (· + 1)) errors where
  increasing := h.increasing.map _ fun a b hab => Nat.succ_lt_succ hab
  messages := by
    rw [List.forall₂_map_left_iff]
    refine h.messages.imp fun i error hi => ?_
    rw [reportedAt_succ_iff, List.take_succ_cons, ← hnumber]
    exact hi
  rejected i := by
    cases i with
    | zero =>
      refine iff_of_false (by simp) ?_
      rintro ⟨d, fault, w, hw, hd, hfault⟩
      cases hw
      exact hv d fault hd hfault
    | succ i => simp [rejectedAt_succ_iff, h.rejected]

/-- A document that is rejected comes before the others. -/
theorem Reports.report {position : Nat} {indices : List Nat} {errors : List String}
    (h : Reports r vs (position + 1) indices errors) {d : Document} {fault : Fault}
    {message : String} (hd : documentsOf v = [d]) (hnull : v.data ≠ .null)
    (hfault : r.resolve d = .error fault) (hmessage : fault.message? = some message) :
    Reports r (v :: vs) position (0 :: indices.map (· + 1))
      ((Validation.label position d ++ ": " ++ message) :: errors) where
  increasing := by
    refine List.pairwise_cons.mpr ⟨by simp, ?_⟩
    exact h.increasing.map _ fun a b hab => Nat.succ_lt_succ hab
  messages := by
    refine .cons ⟨d, fault, message, ⟨v, rfl, hd, hfault⟩, hmessage, rfl⟩ ?_
    rw [List.forall₂_map_left_iff]
    refine h.messages.imp fun i error hi => ?_
    rw [reportedAt_succ_iff, List.take_succ_cons, present_cons_of_ne hnull, List.length_cons,
      Nat.add_comm _ 1, ← Nat.add_assoc]
    exact hi
  rejected i := by
    cases i with
    | zero => exact iff_of_true (by simp) ⟨d, fault, v, rfl, hd, hfault⟩
    | succ i => simp [rejectedAt_succ_iff, h.rejected]

/-- The messages of resolving are about the rejected documents, one for each of them and in their
order. The induction is on the stream, since the empty documents are gone from what is resolved. -/
theorem exists_indices (hdocuments : ∀ v ∈ vs, IsDocument v.data)
    (hsource : ∀ v ∈ vs, v.IsSourced) (position : Nat)
    {errors : List String} {resources : List Resource}
    (h : (Validation.validateAll r position (vs.flatMap documentsOf)).result
      = .ok (errors, resources)) :
    ∃ indices, Reports r vs position indices errors := by
  induction vs generalizing position errors resources with
  | nil =>
    cases h
    exact ⟨[], .nil position⟩
  | cons v vs ih =>
    obtain ⟨hv, hvs⟩ := List.forall_mem_cons.mp hdocuments
    obtain ⟨hvsource, hvssource⟩ := List.forall_mem_cons.mp hsource
    rw [List.flatMap_cons] at h
    rcases documentsOf_of_isDocument hvsource hv with ⟨hnull, hnone⟩ | ⟨hnull, d, hd, -⟩
    · -- An empty document takes no number.
      rw [hnone] at h
      obtain ⟨indices, hindices⟩ := ih hvs hvssource position h
      refine ⟨_, hindices.skip (fun us => by rw [present_cons_of_null hnull]) fun d _ hd => ?_⟩
      rw [hnone] at hd
      cases hd
    · rw [hd, List.singleton_append] at h
      cases hresolve : r.resolve d with
      | ok resource? =>
        rw [validateAll_of_ok hresolve] at h
        cases hrest : (Validation.validateAll r (position + 1) (vs.flatMap documentsOf)).result with
        | error fault =>
          rw [hrest] at h
          cases h
        | ok x =>
          rw [hrest] at h
          cases h
          obtain ⟨indices, hindices⟩ := ih hvs hvssource (position + 1) hrest
          refine ⟨_, hindices.skip (fun us => ?_) fun e fault he hfault => ?_⟩
          · rw [present_cons_of_ne hnull, List.length_cons]
            omega
          · cases hd.symm.trans he
            cases hresolve.symm.trans hfault
      | error fault =>
        by_cases hfault : fault.isManifestFault = true
        · obtain ⟨message, hmessage⟩ := Fault.exists_message_of_isManifestFault hfault
          rw [validateAll_of_isManifestFault hresolve hfault, hmessage, Option.getD_some] at h
          cases hrest :
              (Validation.validateAll r (position + 1) (vs.flatMap documentsOf)).result with
          | error fault =>
            rw [hrest] at h
            cases h
          | ok x =>
            rw [hrest] at h
            cases h
            obtain ⟨indices, hindices⟩ := ih hvs hvssource (position + 1) hrest
            exact ⟨_, hindices.report hd hnull hresolve hmessage⟩
        · rw [validateAll_of_not_isManifestFault hresolve hfault] at h
          cases h

end Resolving

/-! ### Files -/

/-- The numbers in the messages about a file whose YAML can be read. Either splitting refuses a
document, and then there is one message, which calls the document by its place among all documents.
Or there is a message for every document that is rejected, in their order, which calls the document
by its place among those that are not empty. That is its place among all documents exactly when no
empty document stands before it, and smaller otherwise. -/
theorem ofFile_numbers (r : Registry Resource) {files : Files} {path text : String}
    {vs : List SourcedValue} (hread : (files path).readManifest path = .ok text)
    (hstream : readStream text = .ok vs) {w : Validation}
    (hw : (Validation.ofFile r files path).result = .ok w) :
    ((∃ index error, w.errors = [error] ∧ RefusedAt vs index (index + 1) error) ∨
      ∃ indices : List Nat, indices.Pairwise (· < ·) ∧
        List.Forall₂ (fun index error => ReportedAt r vs index (shownNumber vs index) error)
          indices w.errors ∧
        ∀ index, index ∈ indices ↔ ∃ d fault, RejectedAt r vs index d fault) ∧
    ∀ index < vs.length, shownNumber vs index ≤ index + 1 ∧
      (shownNumber vs index = index + 1 ↔ ∀ v ∈ vs.take index, v.data ≠ .null) := by
  refine ⟨?_, fun index hindex => ⟨shownNumber_le, shownNumber_eq_iff hindex⟩⟩
  have hsource := Yaml.isSourced_of_readStream hstream
  rw [ofFile_eq_ofStream hread hstream] at hw
  rcases forall_isDocument_or_first vs with hall | ⟨before, v, after, reason, rfl, hbefore, hv⟩
  -- All documents are split off, so the messages are those of resolving.
  · right
    rw [ofStream_eq fun v hv => (splits_iff_isDocument (hsource v hv)).mpr (hall v hv)] at hw
    simp only [Validation.ofDocuments] at hw
    cases hresult : (Validation.validateAll r 1 (vs.flatMap documentsOf)).result with
    | error fault =>
      rw [hresult] at hw
      cases hw
    | ok x =>
      rw [hresult] at hw
      cases hw
      obtain ⟨indices, h⟩ := exists_indices hall hsource 1 hresult
      refine ⟨indices, h.increasing, h.messages.imp fun i error hi => ?_, h.rejected⟩
      rw [shownNumber, Nat.add_comm]
      exact hi
  -- Splitting stops at the first document that it refuses.
  · left
    have hsplit := (splitText_of_readStream hstream).symm.trans
      (splitText_of_first hstream rfl hbefore hv)
    rw [Validation.ofStream, hsplit] at hw
    cases hw
    exact ⟨before.length, _, rfl, v, reason, by simp, hv, rfl⟩

/-- An empty document, and one without a kind. -/
def emptyFirstText : String := "---\n---\nname: x\n"

theorem validated_emptyFirst :
    ∃ w, (Validation.ofFile defaultRegistry (onlyFile emptyFirstText) "m.yml").result = .ok w ∧
      w.errors = ["document 1 (?/*): missing resource kind"] := by
  have h : ((Validation.ofFile defaultRegistry (onlyFile emptyFirstText)
      "m.yml").result.toOption.any fun w =>
        w.errors = ["document 1 (?/*): missing resource kind"]) = true := by
    decide +kernel
  obtain ⟨w, hw, herrors⟩ := Outcome.exists_of_any h
  exact ⟨w, hw, of_decide_eq_true herrors⟩

theorem readStream_emptyFirst :
    ∃ u v d, readStream emptyFirstText = .ok [u, v] ∧ u.data = .null ∧ documentsOf v = [d] ∧
      d.kind = "" ∧ d.type = "" := by
  have h : ((readStream emptyFirstText).toOption.any fun vs =>
      vs.map (·.data) = [.null, .map [(.str "name", .str "x")]] ∧
      (vs.drop 1).map (fun v => (documentsOf v).map fun d => (d.kind, d.type))
        = [[("", "")]]) = true := by
    decide +kernel
  obtain ⟨vs, hvs, hfacts⟩ := Outcome.exists_of_any h
  obtain ⟨hdata, hlabels⟩ := of_decide_eq_true hfacts
  obtain ⟨u, us, rfl, hu, hus⟩ := List.map_eq_cons_iff.mp hdata
  obtain ⟨v, rest, rfl, -, hrest⟩ := List.map_eq_cons_iff.mp hus
  obtain rfl := List.map_eq_nil_iff.mp hrest
  simp only [List.drop_succ_cons, List.drop_zero, List.map_cons, List.map_nil, List.cons.injEq,
    and_true] at hlabels
  obtain ⟨d, ds, hds, hd, hnil⟩ := List.map_eq_cons_iff.mp hlabels
  obtain rfl := List.map_eq_nil_iff.mp hnil
  exact ⟨u, v, d, hvs, hu, hds, congrArg Prod.fst hd, congrArg Prod.snd hd⟩

/-- The second document of the file has no number of its own: whatever is reported about it has the
number of the first. -/
theorem ofFile_numbers_emptyFirst :
    ∃ vs w, readStream emptyFirstText = .ok vs ∧
      (Validation.ofFile defaultRegistry (onlyFile emptyFirstText) "m.yml").result = .ok w ∧
      shownNumber vs 1 = 1 := by
  obtain ⟨u, v, -, hvs, hnull, -⟩ := readStream_emptyFirst
  obtain ⟨w, hw, -⟩ := validated_emptyFirst
  have htext : (onlyFile emptyFirstText "m.yml").readManifest "m.yml" = .ok emptyFirstText :=
    Outcome.eq_ok_of_toOption (by decide +kernel)
  obtain ⟨hle, hiff⟩ := (ofFile_numbers defaultRegistry htext hvs hw).2 1 (by simp)
  have hne : shownNumber [u, v] 1 ≠ 2 := fun h => hiff.mp h u (by simp) hnull
  have hpos : 1 ≤ shownNumber [u, v] 1 := Nat.le_add_left 1 _
  exact ⟨_, w, hvs, hw, by omega⟩

/-- The second document is reported as the first, which is empty. -/
theorem ofFile_emptyFirst :
    ∃ u v w error, readStream emptyFirstText = .ok [u, v] ∧ u.data = .null ∧
      (Validation.ofFile defaultRegistry (onlyFile emptyFirstText) "m.yml").result = .ok w ∧
      error ∈ w.errors ∧ ReportedAt defaultRegistry [u, v] 1 1 error := by
  obtain ⟨u, v, d, hvs, hnull, hd, hkind, htype⟩ := readStream_emptyFirst
  obtain ⟨w, hw, herrors⟩ := validated_emptyFirst
  have hresolve : defaultRegistry.resolve d = .error (.malformedOne "missing resource kind") := by
    rw [Registry.resolve, if_pos hkind]
  have hlabel : Validation.label 1 d = "document 1 (?/*)" := by
    rw [Validation.label, hkind, htype]
    decide +kernel
  refine ⟨u, v, w, _, hvs, hnull, hw, ?_, d, _, _, ⟨v, rfl, hd, hresolve⟩, rfl, rfl⟩
  rw [herrors, hlabel]
  decide +kernel

end PipelineManifest
