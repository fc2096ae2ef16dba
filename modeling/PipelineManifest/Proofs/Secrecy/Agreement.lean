import PipelineManifest.Pipeline.Basic
import PipelineManifest.Proofs.Outcome
import PipelineManifest.Proofs.Related
import PipelineManifest.Proofs.Value.Writable
import PipelineManifest.Yaml.Stream

/-!
# `PipelineManifest.Proofs.Secrecy.Agreement`: documents that differ in credentials only

Some places of a document hold what nobody else may see: the password and the key of a pipeline's
server, the environments of its steps, and the text of a secret. Two documents agree if they are
the same everywhere else. At such a place both may hold any value of the kind that belongs there;
in particular the one has a password where the other has one.

A document is compared place by place, and the parts of its containers are taken out as the decoders
take them out. So a document that contains itself agrees with another one only if they are also the
same, but for the credentials, wherever they come round again.

* `Value.MapsAgree`, `Value.ItemsAgree`: containers of the same size whose parts are related.
* `Value.AtFields`: the values of the given fields are related, those of others are the same.
* `Value.PipelinesAgree`, `Value.SecretsAgree`: the values of pipelines and of secrets.
* `Yaml.SourcedValue.Agrees`: documents of a stream, in both readings.
* `MapsAgree.get_eq`, `MapsAgree.get_field`, `ItemsAgree.elementsOrNone` and so on: what is read
  from values that agree agrees.
* `Value.Writably`: values that agree and can be written, and what is read from them.
-/

set_option autoImplicit false

namespace PipelineManifest

open Outcome (Alike)

namespace Value

/-! ### Agreement -/

/-- Two values are the same, or `P` holds of both. -/
def Swappable (P : Value → Prop) (v w : Value) : Prop := v = w ∨ P v ∧ P w

/-- Entries with the same keys in the same order; `R` holds between the two values of each key. -/
abbrev EntriesAgree (R : Value → Value → Value → Prop) : List (Value × Value) →
    List (Value × Value) → Prop :=
  List.Forall₂ fun e f => e.1 = f.1 ∧ R e.1 e.2 f.2

/-- Two values are the same, or mappings whose entries agree. -/
inductive MapsAgree (R : Value → Value → Value → Prop) : Value → Value → Prop
  | same (v : Value) : MapsAgree R v v
  | map {es fs : List (Value × Value)} (h : EntriesAgree R (entries es) (entries fs)) :
    MapsAgree R (.map es) (.map fs)

/-- Two values are the same, or sequences with `R` between the two items at each position. -/
inductive ItemsAgree (R : Value → Value → Prop) : Value → Value → Prop
  | same (v : Value) : ItemsAgree R v v
  | seq {vs ws : List Value} (h : List.Forall₂ R (items vs) (items ws)) :
    ItemsAgree R (.seq vs) (.seq ws)

/-- The values of a key are the same, or the key is one of the fields and they are related as the
field says. -/
def AtFields (fields : List (String × (Value → Value → Prop))) (key v w : Value) : Prop :=
  v = w ∨ ∃ f ∈ fields, key = .str f.1 ∧ f.2 v w

/-! ### The places of credentials -/

/-- A text, a number or a boolean. -/
def IsPlain : Value → Prop
  | str _ | int _ | float _ | bool _ => True
  | _ => False

/-- A text, a number or a boolean that is written with at least one character. -/
def IsCredential (v : Value) : Prop := v.IsPlain ∧ v.scalarText ≠ ""

/-- Two servers that are the same but for the password and the key. -/
def ServersAgree : Value → Value → Prop :=
  MapsAgree (AtFields
    [("password", Swappable IsCredential), ("ssh_key", Swappable IsCredential)])

/-- Two environments with the same keys, in which nothing but plain values differ. -/
def EnvironmentsAgree : Value → Value → Prop := MapsAgree fun _ => Swappable IsPlain

/-- Two steps that are the same but for the environment. -/
def StepsAgree : Value → Value → Prop := MapsAgree (AtFields [("environment", EnvironmentsAgree)])

/-- Two pipelines that are the same but for credentials. -/
def PipelinesAgree : Value → Value → Prop :=
  MapsAgree (AtFields [("server", ServersAgree), ("steps", ItemsAgree StepsAgree)])

/-- Two secrets that are the same but for the encrypted text. -/
def SecretsAgree : Value → Value → Prop :=
  MapsAgree (AtFields [("data", Swappable fun v => ∃ s, v = .str s)])

end Value

/-- Two documents of a stream that are the same, or pipelines or secrets that are the same but for
credentials, both as values and as they are written. -/
inductive Yaml.SourcedValue.Agrees : SourcedValue → SourcedValue → Prop
  | same (v : SourcedValue) : Agrees v v
  | pipeline {v w : SourcedValue} (hkind : v.data.get "kind" = .ok (some (.str "pipeline")))
    (hdata : v.data.PipelinesAgree w.data) (hsource : v.source.PipelinesAgree w.source) :
    Agrees v w
  | secret {v w : SourcedValue} (hkind : v.data.get "kind" = .ok (some (.str "secret")))
    (hdata : v.data.SecretsAgree w.data) (hsource : v.source.SecretsAgree w.source) : Agrees v w

/-! ### Reading values that agree -/

theorem option_rel_refl {α : Type} {R : α → α → Prop} (hR : ∀ a, R a a) (o : Option α) :
    Option.Rel R o o := by
  cases o with
  | none => exact .none
  | some a => exact .some (hR a)

/-- Lists of the same length are both empty or both not. -/
theorem isEmpty_eq_of_length_eq {α β : Type} {xs : List α} {ys : List β}
    (h : xs.length = ys.length) : xs.isEmpty = ys.isEmpty := by
  rw [Bool.eq_iff_iff, List.isEmpty_iff_length_eq_zero, List.isEmpty_iff_length_eq_zero, h]

namespace Value

theorem Swappable.refl {P : Value → Prop} (v : Value) : Swappable P v v := .inl rfl

section Entries

variable {R : Value → Value → Value → Prop} {es fs : List (Value × Value)}

theorem EntriesAgree.refl (hR : ∀ k v, R k v v) (es : List (Value × Value)) :
    EntriesAgree R es es :=
  List.forall₂_same.mpr fun e _ => ⟨rfl, hR e.1 e.2⟩

theorem EntriesAgree.keys (h : EntriesAgree R es fs) : es.map Prod.fst = fs.map Prod.fst := by
  induction h with
  | nil => rfl
  | cons hef _ ih => rw [List.map_cons, List.map_cons, hef.1, ih]

/-- Under a text both mappings have related values or none. -/
theorem EntriesAgree.lookup? (h : EntriesAgree R es fs) (name : String) :
    Option.Rel (R (.str name)) (Value.lookup? (.str name) es) (Value.lookup? (.str name) fs) := by
  induction h with
  | nil => exact .none
  | @cons e f es fs hef _ ih =>
    obtain ⟨k, v⟩ := e
    obtain ⟨l, w⟩ := f
    obtain ⟨rfl, hvw⟩ := hef
    -- The keys are the same, so both look-ups end here or both go on.
    rw [lookup?_cons, lookup?_cons]
    split
    · rename_i hk
      rw [sameKey_str_iff.mp hk] at hvw
      exact .some hvw
    · exact ih

end Entries

section Maps

variable {R : Value → Value → Value → Prop} {v w : Value}

/-- What is not detached has the keys of what is. -/
theorem keys_of_entriesAgree {es fs : List (Value × Value)}
    (h : EntriesAgree R (entries es) (entries fs)) : es.map Prod.fst = fs.map Prod.fst := by
  rw [← keys_entries es, ← keys_entries fs, h.keys]

/-- Mappings without references are compared as they are written. -/
theorem MapsAgree.of_isTree {es fs : List (Value × Value)} (hes : (Value.map es).isTree = true)
    (hfs : (Value.map fs).isTree = true) (h : EntriesAgree R es fs) :
    MapsAgree R (.map es) (.map fs) := by
  simp only [isTree] at hes hfs
  refine .map ?_
  rwa [entries_of_areTreeEntries es hes, entries_of_areTreeEntries fs hfs]

theorem MapsAgree.exists_map {es : List (Value × Value)} (h : MapsAgree R (.map es) w) :
    ∃ fs, w = .map fs := by
  cases h with
  | same => exact ⟨es, rfl⟩
  | map _ => exact ⟨_, rfl⟩

theorem MapsAgree.isTruthy (h : MapsAgree R v w) : v.isTruthy = w.isTruthy := by
  cases h with
  | same v => rfl
  | map h =>
    have hlength := congrArg List.length (keys_of_entriesAgree h)
    rw [List.length_map, List.length_map] at hlength
    rw [Value.isTruthy, Value.isTruthy, isEmpty_eq_of_length_eq hlength]

theorem MapsAgree.get (hR : ∀ k v, R k v v) (h : MapsAgree R v w) (name : String) :
    Alike (Option.Rel (R (.str name))) (v.get name) (w.get name) := by
  cases h with
  | same v => exact .refl (option_rel_refl (hR _)) _
  | map h => exact .ok (h.lookup? name)

theorem MapsAgree.orData {v' w' : Value} (hsource : MapsAgree R v w) (hdata : MapsAgree R v' w') :
    MapsAgree R (v.orData v') (w.orData w') := by
  -- The data is taken where there is no source, and a mapping is a source.
  cases hsource with
  | same v =>
    cases v with
    | null => exact hdata
    | _ => exact .same _
  | map h => exact .map h

end Maps

theorem isTree_of_isPlain {v : Value} (h : v.IsPlain) : v.isTree = true := by
  cases v <;> first | rfl | exact h.elim

/-! ### Fields of mappings that agree -/

section Fields

variable {fields : List (String × (Value → Value → Prop))} {v w : Value}

theorem AtFields.refl (key v : Value) : AtFields fields key v v := .inl rfl

/-- Fields that are not among the given ones are the same. -/
theorem MapsAgree.get_eq (h : MapsAgree (AtFields fields) v w) {name : String}
    (hname : name ∉ fields.map Prod.fst) : v.get name = w.get name := by
  -- That the values of this key can differ would make it one of the given fields.
  refine ((h.get AtFields.refl name).imp fun o o' ho => ?_).eq
  cases ho with
  | none => rfl
  | some hvw =>
    rcases hvw with rfl | ⟨f, hf, hkey, -⟩
    · rfl
    · exact absurd (List.mem_map.mpr ⟨f, hf, (Value.str.inj hkey).symm⟩) hname

/-- A field that is among the given ones once has related values. -/
theorem MapsAgree.get_field (h : MapsAgree (AtFields fields) v w) (name : String)
    {R : Value → Value → Prop} (hrefl : ∀ v, R v v)
    (hname : ∀ f ∈ fields, f.1 = name → f.2 = R) :
    Alike (Option.Rel R) (v.get name) (w.get name) := by
  refine (h.get AtFields.refl name).imp fun o o' ho => ?_
  cases ho with
  | none => exact .none
  | some hvw =>
    rcases hvw with rfl | ⟨f, hf, hkey, hvw⟩
    · exact .some (hrefl _)
    · rw [hname f hf (Value.str.inj hkey).symm] at hvw
      exact .some hvw

end Fields

/-! ### Items of sequences that agree -/

section Items

variable {R : Value → Value → Prop} {v w : Value} {o o' : Option Value}

theorem ItemsAgree.of_isTree {vs ws : List Value} (hvs : (Value.seq vs).isTree = true)
    (hws : (Value.seq ws).isTree = true) (h : List.Forall₂ R vs ws) :
    ItemsAgree R (.seq vs) (.seq ws) := by
  simp only [isTree] at hvs hws
  refine .seq ?_
  rwa [items_of_areTrees vs hvs, items_of_areTrees ws hws]

theorem ItemsAgree.isTruthy (h : ItemsAgree R v w) : v.isTruthy = w.isTruthy := by
  cases h with
  | same v => rfl
  | seq h =>
    have hlength := h.length_eq
    rw [length_items, length_items] at hlength
    rw [Value.isTruthy, Value.isTruthy, isEmpty_eq_of_length_eq hlength]

theorem ItemsAgree.elements (hR : ∀ v, R v v) (h : ItemsAgree R v w) :
    Alike (List.Forall₂ R) v.elements w.elements := by
  cases h with
  | same v => exact .refl (fun vs => List.forall₂_same.mpr fun v _ => hR v) _
  | seq h => exact .ok h

theorem ItemsAgree.elementsOrNone (hR : ∀ v, R v v) (h : Option.Rel (ItemsAgree R) o o') :
    Alike (List.Forall₂ R) (elementsOrNone o) (elementsOrNone o') := by
  cases h with
  | none => exact .ok .nil
  | some h =>
    rw [Value.elementsOrNone, Value.elementsOrNone, h.isTruthy]
    split
    · exact h.elements hR
    · exact .ok .nil

end Items

/-! ### Values that can be written -/

/-- Two related values that are the same, or can both be written. -/
structure Writably (R : Value → Value → Prop) (v w : Value) : Prop where
  related : R v w
  writable : v = w ∨ v.isWritable = true ∧ w.isWritable = true

namespace Writably

variable {R : Value → Value → Prop} {v w : Value} {o o' : Option Value}

theorem refl (hR : ∀ v, R v v) (v : Value) : Writably R v v := ⟨hR v, .inl rfl⟩

/-- A field that is among the given ones once has related values, which can be written. -/
theorem get_field {fields : List (String × (Value → Value → Prop))}
    (h : Writably (MapsAgree (AtFields fields)) v w) (name : String) (hR : ∀ v, R v v)
    (hname : ∀ f ∈ fields, f.1 = name → f.2 = R) :
    Alike (Option.Rel (Writably R)) (v.get name) (w.get name) := by
  rcases h.writable with rfl | ⟨hv, hw⟩
  · exact .refl (option_rel_refl (refl hR)) _
  · refine ((h.related.get_field name hR hname).and (fun _ => isWritable_of_get hv)
      fun _ => isWritable_of_get hw).imp ?_
    rintro o o' ⟨ho, ha, hb⟩
    cases ho with
    | none => exact .none
    | some hab => exact .some ⟨hab, .inr ⟨ha _ rfl, hb _ rfl⟩⟩

/-- The values of a mapping can be written. -/
theorem fields (hR : ∀ v, R v v) (h : Writably (MapsAgree fun _ => R) v w) :
    Alike (EntriesAgree fun _ => Writably R) v.fields w.fields := by
  obtain ⟨hrelated, rfl | ⟨hv, hw⟩⟩ := h
  · exact .refl (EntriesAgree.refl fun _ => refl hR) _
  · cases hrelated with
    | same => exact .refl (EntriesAgree.refl fun _ => refl hR) _
    | map h =>
      refine .ok (forall₂_imp_of_mem h fun e he f hf hef => ⟨hef.1, hef.2, .inr ⟨?_, ?_⟩⟩)
      · exact (isWritable_of_mem_entries hv he).2
      · exact (isWritable_of_mem_entries hw hf).2

theorem orEmpty {R : Value → Value → Value → Prop}
    (h : Option.Rel (Writably (MapsAgree R)) o o') :
    Writably (MapsAgree R) (orEmpty o) (orEmpty o') := by
  cases h with
  | none => exact refl .same _
  | some h =>
    rw [Value.orEmpty, Value.orEmpty, h.related.isTruthy]
    split
    · exact h
    · exact refl .same _

theorem orNoItems (h : Option.Rel (Writably (ItemsAgree R)) o o') :
    Writably (ItemsAgree R) (Pipeline.orNoItems o) (Pipeline.orNoItems o') := by
  cases h with
  | none => exact refl .same _
  | some h =>
    rw [Pipeline.orNoItems, Pipeline.orNoItems, h.related.isTruthy]
    split
    · exact h
    · exact refl .same _

theorem element (hR : ∀ v, R v v) (h : Writably (ItemsAgree R) v w) (i : Nat) :
    Alike (Writably R) (v.element i) (w.element i) := by
  obtain ⟨hrelated, rfl | ⟨hv, hw⟩⟩ := h
  · exact .refl (refl hR) _
  · cases hrelated with
    | same => exact .refl (refl hR) _
    | @seq vs ws h =>
      have hget := forall₂_getElem? (forall₂_imp_of_mem (S := Writably R) h fun a ha b hb hab =>
        ⟨hab, .inr ⟨isWritable_of_mem_items hv ha, isWritable_of_mem_items hw hb⟩⟩) i
      simp only [Value.element, Value.elements, Outcome.ok_bind]
      revert hget
      generalize (items vs)[i]? = o, (items ws)[i]? = o'
      intro hget
      cases hget with
      | none => exact .error _
      | some h => exact .ok h

end Writably

end Value

end PipelineManifest
