import PipelineManifest.Proofs.Value.Kinds
import PipelineManifest.Proofs.Value.Writable
import PipelineManifest.Settings

/-!
# `PipelineManifest.Proofs.Settings`: variables and sections that are read and written

The sections of a pipeline are records of optional fields. A section that its schema accepts is
decoded into values of the right kinds, and the only fault there can be is that a number which
becomes a text is too long to be written (`Value.whenWritable`). A section is written without the
fields that are not given, and the decoder puts the same values in their places when it is read
back: exactly, but for a depth of zero, which becomes the whole number zero, and for a variable of
the server that is empty, which becomes absent.

* `Variable.decode_of_accepts`, `Variable.decode_toValue`: variables.
* `Variable.spelled`, `Server.spelled`, `Platform.spelled`: the scalars that become texts.
* `Server.decode_of_accepts`, `Workspace.decode_of_accepts`, `Platform.decode_of_accepts`,
  `Clone.decode_of_accepts`: accepted sections are decoded.
* `Server.decode_written`, `Workspace.decode_written`, `Platform.decode_written`,
  `Clone.decode_written`: written sections are read back.
* `Server.accepts_written`, `Workspace.accepts_written`, `Platform.accepts_written`,
  `Clone.accepts_written`: written sections are accepted.
-/

set_option autoImplicit false

namespace PipelineManifest

open Value (field? lookup? orEmpty whenWritable)

@[simp] theorem givenEntries_nil : givenEntries [] = [] := rfl

theorem givenEntries_cons (name : String) (v : Value) (l : List (String × Value)) :
    givenEntries ((name, v) :: l)
      = (if v.isTruthy then [(.str name, v)] else []) ++ givenEntries l := by
  rw [givenEntries, givenEntries, List.filter_cons]
  split <;> rfl

namespace Value

/-! ### Sections that are accepted -/

/-- A section that is accepted as a mapping, or left out, is read as a mapping whose fields keep
their schemas. -/
theorem orEmpty_of_accepts {fields : List (String × Schema)} {section? : Option Value}
    (h : ∀ v, section? = some v →
      Schema.accepts [.type [.object], .properties fields] v = true) :
    ∃ es, orEmpty section? = .map es ∧
      ∀ f ∈ fields, ∀ w, field? f.1 es = some w → Schema.accepts f.2 w = true := by
  cases section? with
  | none => exact ⟨[], rfl, fun f _ w hw => by cases hw⟩
  | some v =>
    obtain ⟨es, rfl, hes⟩ := Schema.accepts_object_iff.mp (h v rfl)
    exact ⟨es, orEmpty_map es, hes⟩

/-- A field that may be left out is of a kind if its fallback is, and every value that is
accepted in it. -/
theorem getD_field? {P : Value → Prop} {es : List (Value × Value)} {name : String}
    {fallback : Value} (hfallback : P fallback) (h : ∀ w, field? name es = some w → P w) :
    P ((field? name es).getD fallback) := by
  cases hf : field? name es with
  | none => exact hfallback
  | some w => exact h w hf

/-! ### Sections that are written -/

section Written

variable {β : Type} (p : String × β → Bool) (f : β → Value) {l : List (String × β)}

/-- The entries of those named values that satisfy a condition. -/
def written (l : List (String × β)) : List (Value × Value) :=
  (l.filter p).map fun (name, b) => (.str name, f b)

theorem mem_written {e : Value × Value} (h : e ∈ written p f l) :
    ∃ x ∈ l, e = (.str x.1, f x.2) := by
  obtain ⟨x, hx, rfl⟩ := List.mem_map.mp h
  exact ⟨x, (List.mem_filter.mp hx).1, rfl⟩

/-- Nothing is found under a name that no value has. -/
theorem lookup?_written_eq_none {name : String} (hname : name ∉ l.map Prod.fst) :
    lookup? (.str name) (written p f l) = none := by
  rw [← Option.not_isSome_iff_eq_none, lookup?_isSome, List.any_eq_true]
  rintro ⟨k, hk, hsame⟩
  obtain ⟨e, he, rfl⟩ := List.mem_map.mp hk
  obtain ⟨x, hx, rfl⟩ := mem_written p f he
  have heq : x.1 = name := by simpa using hsame
  exact hname (heq ▸ List.mem_map_of_mem hx)

theorem isTree_written (hl : ∀ x ∈ l, (f x.2).isTree = true) :
    (map (written p f l)).isTree = true := by
  rw [isTree, written]
  induction l with
  | nil => rfl
  | cons x l ih =>
    have hrest := ih fun y hy => hl y (List.mem_cons_of_mem _ hy)
    rw [List.filter_cons]
    split
    · simp only [List.map_cons, areTreeEntries, isTree, hl x List.mem_cons_self, Bool.and_self,
        Bool.true_and]
      exact hrest
    · exact hrest

/-- A named value is found among the entries if it satisfies the condition. -/
theorem lookup?_written (hl : (l.map Prod.fst).Nodup) {name : String} {b : β}
    (hb : (name, b) ∈ l) :
    lookup? (.str name) (written p f l) = if p (name, b) then some (f b) else none := by
  rw [written]
  induction l with
  | nil => cases hb
  | cons x l ih =>
    obtain ⟨n, a⟩ := x
    rw [List.map_cons, List.nodup_cons] at hl
    rw [List.filter_cons]
    rcases List.mem_cons.mp hb with heq | hmem
    · cases heq
      -- No other value has the name.
      have hnone := lookup?_written_eq_none p f hl.1
      split
      · rw [List.map_cons, lookup?_str_cons, if_pos rfl]
      · exact hnone
    · have hne : n ≠ name := fun h => hl.1 (List.mem_map.mpr ⟨_, hmem, h.symm⟩)
      split
      · rw [List.map_cons, lookup?_str_cons, if_neg hne]
        exact ih hl.2 hmem
      · exact ih hl.2 hmem

theorem field?_written (hl : (l.map Prod.fst).Nodup) (ht : ∀ x ∈ l, (f x.2).isTree = true)
    {name : String} {b : β} (hb : (name, b) ∈ l) :
    field? name (written p f l) = if p (name, b) then some (f b) else none := by
  rw [field?_of_isTree (isTree_written p f ht), lookup?_written p f hl hb]

end Written

/-- A section whose values keep their schemas is accepted as it is written. -/
theorem accepts_written {β : Type} (p : String × β → Bool) (f : β → Value)
    {l : List (String × β)} (ht : ∀ x ∈ l, (f x.2).isTree = true)
    {fields : List (String × Schema)}
    (h : ∀ x ∈ l, ∀ schema, (x.1, schema) ∈ fields → Schema.accepts schema (f x.2) = true) :
    Schema.accepts [.type [.object], .properties fields] (map (written p f l)) = true := by
  refine Schema.accepts_object_iff.mpr ⟨_, rfl, ?_⟩
  intro g hg w hw
  rw [field?_of_isTree (isTree_written p f ht)] at hw
  obtain ⟨x, hx, heq⟩ := mem_written p f (mem_of_lookup?_str hw)
  obtain ⟨hname, rfl⟩ := Prod.mk.inj heq
  refine h x hx g.2 ?_
  rw [← str.inj hname]
  exact hg

/-- What is found of a field that is written if it is given. -/
theorem field?_given {l : List (String × Value)} (hl : (l.map Prod.fst).Nodup)
    (ht : ∀ x ∈ l, x.2.isTree = true) {name : String} {v : Value} (hv : (name, v) ∈ l) :
    field? name (givenEntries l) = if v.isTruthy then some v else none :=
  field?_written (fun x : String × Value => x.2.isTruthy) id hl ht hv

theorem lookup?_given_eq_none {l : List (String × Value)} {name : String}
    (hname : name ∉ l.map Prod.fst) : lookup? (.str name) (givenEntries l) = none :=
  lookup?_written_eq_none (fun x : String × Value => x.2.isTruthy) id hname

theorem isTree_given {l : List (String × Value)} (ht : ∀ x ∈ l, x.2.isTree = true) :
    (map (givenEntries l)).isTree = true :=
  isTree_written (fun x : String × Value => x.2.isTruthy) id ht

theorem accepts_given {l : List (String × Value)} (ht : ∀ x ∈ l, x.2.isTree = true)
    {fields : List (String × Schema)}
    (h : ∀ x ∈ l, ∀ schema, (x.1, schema) ∈ fields → Schema.accepts schema x.2 = true) :
    Schema.accepts [.type [.object], .properties fields] (map (givenEntries l)) = true :=
  accepts_written (fun x : String × Value => x.2.isTruthy) id ht h

/-- A section that is left out where it is empty is read as its entries. -/
theorem orEmpty_given (es : List (Value × Value)) :
    orEmpty (if (map es).isTruthy then some (map es) else none) = map es := by
  cases es <;> rfl

/-- A value that is left out where it does not count as given is read back, if then its fallback
is the same. -/
theorem getD_given {v fallback : Value} (h : v.isTruthy = false → v = fallback) :
    (if v.isTruthy then some v else none).getD fallback = v := by
  cases hv : v.isTruthy with
  | true => rfl
  | false => exact (h hv).symm

end Value

/-! ### Variables -/

namespace Variable

/-- What becomes a text when a value is decoded as a variable: a scalar, but nothing of a mapping
that names a secret. -/
def spelled (v : Value) : List Value := if v.isScalar then [v] else []

/-- A whole number is decoded to its digits, if it can be written. -/
theorem decode_int (i : Int) (field : String) :
    decode (.int i) field = whenWritable [.int i] (literal (Value.int i).scalarText) := by
  rw [decode, Value.toScalarText_eq]
  exact Value.whenWritable_map literal

theorem decode_of_accepts {v : Value} (h : Schema.variableValue.accepts v = true)
    (field : String) : ∃ x, decode v field = whenWritable (spelled v) x := by
  cases Schema.accepts_variableValue_iff.mp h with
  | null => exact ⟨absent, rfl⟩
  | @secret es s only name =>
    refine ⟨secret s, ?_⟩
    simp [decode, decodeSecret, secretField, name, spelled, Value.isScalar]
  | bool b => exact ⟨literal _, rfl⟩
  | int i => exact ⟨literal _, decode_int i field⟩
  | float x => exact ⟨literal _, rfl⟩
  | str s => exact ⟨literal _, rfl⟩

/-- What becomes a text of a field that may be left out. -/
def spelledField (v : Option Value) : List Value := v.toList.flatMap spelled

theorem decodeField_of_accepts {v : Option Value}
    (h : ∀ w, v = some w → Schema.variableValue.accepts w = true) (field : String) :
    ∃ x, decodeField v field = whenWritable (spelledField v) x := by
  cases v with
  | none => exact ⟨absent, rfl⟩
  | some w =>
    obtain ⟨x, hx⟩ := decode_of_accepts (h w rfl) field
    refine ⟨x, ?_⟩
    rw [decodeField, Option.getD_some, hx, spelledField, Option.toList_some, List.flatMap_cons,
      List.flatMap_nil, List.append_nil]

theorem isTree_toValue (x : Variable) : x.toValue.isTree = true := by
  cases x <;> rfl

/-- The one field of a written secret. -/
theorem field?_secret (name : String) :
    field? secretField [(.str secretField, .str name)] = some (.str name) := by
  rw [Value.field?_singleton rfl, if_pos rfl]

/-- What a variable is written as is read back as the same variable. -/
theorem decode_toValue (x : Variable) (field : String) : decode x.toValue field = .ok x := by
  cases x with
  | literal text => rfl
  | secret name => simp only [toValue, decode, decodeSecret, field?_secret]
  | absent => rfl

theorem accepts_toValue (x : Variable) : Schema.variableValue.accepts x.toValue = true := by
  rw [Schema.accepts_variableValue_iff]
  cases x with
  | literal text => exact .str text
  | secret name =>
    have honly : otherEntries ["from_secret"] [(.str secretField, .str name)] = [] := by
      simp [Schema.otherEntries_eq_nil_iff, secretField]
    exact .secret honly (field?_secret name)
  | absent => exact .null

/-- A variable that is present, or else absent. -/
def orAbsent (x : Variable) : Variable := if x.isPresent then x else absent

@[simp] theorem isPresent_orAbsent (x : Variable) : x.orAbsent.isPresent = x.isPresent := by
  rw [orAbsent]
  cases h : x.isPresent with
  | true => rw [if_pos rfl, h]
  | false => rw [if_neg Bool.false_ne_true]; rfl

theorem orAbsent_of_isPresent {x : Variable} (h : x.isPresent = true) : x.orAbsent = x := by
  rw [orAbsent, if_pos h]

/-- Only an empty literal and an empty secret change. -/
theorem orAbsent_eq_self_iff {x : Variable} :
    x.orAbsent = x ↔ x ≠ literal "" ∧ x ≠ secret "" := by
  cases x with
  | literal text => by_cases h : text = "" <;> simp [orAbsent, isPresent, h]
  | secret name => by_cases h : name = "" <;> simp [orAbsent, isPresent, h]
  | absent => simp [orAbsent, isPresent]

/-- A variable that is left out where it is not present is read back as present or absent. -/
theorem decodeField_unless (x : Variable) (field : String) :
    decodeField (if x.isPresent then some x.toValue else none) field = .ok x.orAbsent := by
  rw [orAbsent]
  cases x.isPresent with
  | true => exact decode_toValue x field
  | false => rfl

end Variable

/-! ### The server -/

namespace Server

/-- The fields of a server with their schemas. -/
def schemas : List (String × Schema) :=
  ["host", "user", "password", "ssh_key"].map fun name => (name, Schema.variableValue)

/-- The server is the only section that has no other keys. -/
theorem accepts_schemas {v : Value} (h : Schema.server.accepts v = true) :
    Schema.accepts [.type [.object], .properties schemas] v = true := by
  obtain ⟨es, rfl, hes, -⟩ := Schema.accepts_closedObject_iff.mp h
  exact Schema.accepts_object_iff.mpr ⟨es, rfl, hes⟩

/-- The scalars of a server that become texts. -/
def spelled (section? : Option Value) : List Value :=
  match orEmpty section? with
  | .map es =>
    ["host", "user", "password", "ssh_key"].flatMap fun name =>
      Variable.spelledField (field? name es)
  | _ => []

theorem decode_of_accepts {section? : Option Value}
    (h : ∀ v, section? = some v → Schema.server.accepts v = true) :
    ∃ s, decode section? = whenWritable (spelled section?) s := by
  obtain ⟨es, hes, hfields⟩ := Value.orEmpty_of_accepts fun v hv => accepts_schemas (h v hv)
  have hvar : ∀ name ∈ ["host", "user", "password", "ssh_key"], ∀ place,
      ∃ x, Variable.decodeField (field? name es) place
        = whenWritable (Variable.spelledField (field? name es)) x := by
    intro name hname place
    refine Variable.decodeField_of_accepts (fun w hw => ?_) place
    exact hfields _ (List.mem_map_of_mem hname) w hw
  obtain ⟨host, hhost⟩ := hvar "host" (by simp) "server.host"
  obtain ⟨user, huser⟩ := hvar "user" (by simp) "server.user"
  obtain ⟨password, hpassword⟩ := hvar "password" (by simp) "server.password"
  obtain ⟨sshKey, hsshKey⟩ := hvar "ssh_key" (by simp) "server.ssh_key"
  refine ⟨{ host, user, password, sshKey }, ?_⟩
  simp only [decode, spelled, hes, Value.get_map, Outcome.ok_bind, hhost, huser, hpassword, hsshKey,
    List.flatMap_cons, List.flatMap_nil]
  -- The variables are decoded one after the other.
  refine Value.whenWritable_bind (Value.whenWritable_bind (Value.whenWritable_bind ?_))
  exact Value.whenWritable_bind rfl

theorem isTree_entries (s : Server) : (Value.map s.entries).isTree = true :=
  Value.isTree_written _ _ fun x _ => x.2.isTree_toValue

theorem accepts_written (s : Server) : Schema.server.accepts (.map s.entries) = true := by
  have hfields : Schema.accepts [.type [.object], .properties schemas] (.map s.entries) = true := by
    refine Value.accepts_written _ _ (fun x _ => x.2.isTree_toValue) fun x _ schema hx => ?_
    obtain ⟨name, -, hname⟩ := List.mem_map.mp hx
    rw [← (Prod.mk.inj hname).2]
    exact x.2.accepts_toValue
  obtain ⟨es, hes, hkeep⟩ := Schema.accepts_object_iff.mp hfields
  refine Schema.accepts_closedObject_iff.mpr ⟨es, hes, hkeep, ?_⟩
  rw [← Value.map.inj hes, Schema.otherEntries_eq_nil_iff]
  intro e he
  obtain ⟨x, hx, rfl⟩ := Value.mem_written _ _ he
  refine ⟨x.1, ?_, rfl⟩
  have hname : x.1 ∈ s.fields.map Prod.fst := List.mem_map_of_mem hx
  exact hname

/-- A server without its empty variables. -/
def orAbsent (s : Server) : Server :=
  { host := s.host.orAbsent, user := s.user.orAbsent, password := s.password.orAbsent
    sshKey := s.sshKey.orAbsent }

/-- What a server is written as is read back as the same server, without its empty variables. -/
theorem decode_written (s : Server) :
    decode (if (Value.map s.entries).isTruthy then some (.map s.entries) else none)
      = .ok s.orAbsent := by
  have hfield : ∀ name x, (name, x) ∈ s.fields →
      field? name s.entries = if x.isPresent then some x.toValue else none :=
    fun name x hx => Value.field?_written (fun x : String × Variable => x.2.isPresent) _
      (by simp [fields]) (fun x _ => x.2.isTree_toValue) hx
  rw [decode, Value.orEmpty_given]
  simp only [Value.get_map, Outcome.ok_bind, hfield "host" s.host (by simp [fields]),
    hfield "user" s.user (by simp [fields]), hfield "password" s.password (by simp [fields]),
    hfield "ssh_key" s.sshKey (by simp [fields]), Variable.decodeField_unless, Outcome.pure_eq_ok,
    orAbsent]

/-- A server is written like the same server without its empty variables. -/
theorem entries_orAbsent (s : Server) : s.orAbsent.entries = s.entries := by
  have hfields : s.orAbsent.fields = s.fields.map fun f => (f.1, f.2.orAbsent) := rfl
  rw [entries, entries, hfields, List.filter_map, List.map_map]
  simp only [Function.comp_def, Variable.isPresent_orAbsent]
  refine List.map_congr_left fun f hf => ?_
  have hpresent : f.2.isPresent = true := (List.mem_filter.mp hf).2
  rw [Variable.orAbsent_of_isPresent hpresent]

/-- Nothing changes if no variable is empty. -/
theorem orAbsent_eq_self_iff {s : Server} :
    s.orAbsent = s ↔ ∀ f ∈ s.fields, f.2 ≠ .literal "" ∧ f.2 ≠ .secret "" := by
  obtain ⟨host, user, password, sshKey⟩ := s
  simp only [orAbsent, Server.mk.injEq, fields, List.forall_mem_cons, List.not_mem_nil,
    false_implies, implies_true, and_true, Variable.orAbsent_eq_self_iff]

end Server

/-! ### The workspace -/

namespace Workspace

/-- The fields of a workspace with their schemas. -/
def schemas : List (String × Schema) := [("path", Schema.string)]

/-- The fields of a workspace with their values. -/
def fields (w : Workspace) : List (String × Value) := [("path", w.path)]

/-- A workspace whose path is a text. -/
structure WellTyped (w : Workspace) : Prop where
  path : w.path.IsText

theorem decode_of_accepts {section? : Option Value}
    (h : ∀ v, section? = some v →
      Schema.accepts [.type [.object], .properties schemas] v = true) :
    ∃ w, decode section? = .ok w ∧ w.WellTyped := by
  obtain ⟨es, hes, hfields⟩ := Value.orEmpty_of_accepts h
  have hpath : ((field? "path" es).getD (.str "")).IsText :=
    Value.getD_field? ⟨"", rfl⟩ fun w hw =>
      Schema.accepts_string_iff.mp (hfields _ List.mem_cons_self w hw)
  refine ⟨{ path := (field? "path" es).getD (.str "") }, ?_, ⟨hpath⟩⟩
  simp only [decode, hes, Value.getD, Value.get_map, Outcome.ok_bind, Outcome.pure_eq_ok]

variable {w : Workspace}

theorem WellTyped.isText (h : w.WellTyped) : ∀ x ∈ w.fields, x.2.IsText := by
  simp only [fields, List.mem_singleton]
  rintro x rfl
  exact h.path

theorem WellTyped.isTree (h : w.WellTyped) : ∀ x ∈ w.fields, x.2.isTree = true :=
  fun x hx => (h.isText x hx).isTree

theorem isTree_entries (h : w.WellTyped) : (Value.map w.entries).isTree = true :=
  Value.isTree_given h.isTree

/-- What a workspace is written as is read back as the same workspace. -/
theorem decode_written (h : w.WellTyped) :
    decode (if (Value.map w.entries).isTruthy then some (.map w.entries) else none) = .ok w := by
  have hpath : field? "path" w.entries = if w.path.isTruthy then some w.path else none :=
    Value.field?_given (by simp [fields]) h.isTree List.mem_cons_self
  rw [decode, Value.orEmpty_given]
  simp only [Value.getD, Value.get_map, Outcome.ok_bind, hpath, Outcome.pure_eq_ok,
    Value.getD_given h.path.eq_of_not_isTruthy]

theorem accepts_written (h : w.WellTyped) :
    Schema.accepts [.type [.object], .properties schemas] (.map w.entries) = true := by
  refine Value.accepts_given h.isTree fun x hx schema hschema => ?_
  simp only [schemas, List.mem_singleton, Prod.mk.injEq] at hschema
  rw [hschema.2, Schema.accepts_string_iff]
  exact h.isText x hx

theorem equal_self (h : w.WellTyped) : w.equal w = true := h.path.equal_self

end Workspace

/-! ### The platform -/

namespace Platform

/-- The fields of a platform with their schemas. -/
def schemas : List (String × Schema) :=
  [("os", Schema.string), ("arch", Schema.string), ("variant", Schema.string),
    ("version", Schema.version)]

/-- The fields of a platform with their values. -/
def fields (p : Platform) : List (String × Value) :=
  [("os", p.os), ("arch", p.arch), ("variant", p.variant), ("version", p.version)]

/-- A platform of texts. -/
structure WellTyped (p : Platform) : Prop where
  os : p.os.IsText
  arch : p.arch.IsText
  variant : p.variant.IsText
  version : p.version.IsText

/-- The scalars of a platform that become texts. -/
def spelled (section? : Option Value) : List Value :=
  match orEmpty section? with
  | .map es => (field? "version" es).toList
  | _ => []

theorem decode_of_accepts {section? : Option Value}
    (h : ∀ v, section? = some v →
      Schema.accepts [.type [.object], .properties schemas] v = true) :
    ∃ p, decode section? = whenWritable (spelled section?) p ∧ p.WellTyped := by
  obtain ⟨es, hes, hfields⟩ := Value.orEmpty_of_accepts h
  have htext : ∀ name, (name, Schema.string) ∈ schemas →
      ((field? name es).getD (.str "")).IsText := fun name hname =>
    Value.getD_field? ⟨"", rfl⟩ fun w hw => Schema.accepts_string_iff.mp (hfields _ hname w hw)
  have hos := htext "os" (by simp [schemas])
  have harch := htext "arch" (by simp [schemas])
  have hvariant := htext "variant" (by simp [schemas])
  refine ⟨{
    os := (field? "os" es).getD (.str "")
    arch := (field? "arch" es).getD (.str "")
    variant := (field? "variant" es).getD (.str "")
    version := .str ((field? "version" es).getD (.str "")).scalarText },
    ?_, ⟨hos, harch, hvariant, ⟨_, rfl⟩⟩⟩
  simp only [decode, spelled, hes, Value.getD, Value.get_map, Outcome.ok_bind, Outcome.pure_eq_ok]
  cases field? "version" es with
  | none => rfl
  | some w =>
    rw [Option.getD_some, Value.toScalarText_eq, Option.toList_some]
    exact Value.whenWritable_map _

variable {p : Platform}

theorem WellTyped.isText (h : p.WellTyped) : ∀ x ∈ p.fields, x.2.IsText := by
  simp only [fields, List.mem_cons, List.not_mem_nil, or_false]
  rintro x (rfl | rfl | rfl | rfl)
  · exact h.os
  · exact h.arch
  · exact h.variant
  · exact h.version

theorem WellTyped.isTree (h : p.WellTyped) : ∀ x ∈ p.fields, x.2.isTree = true :=
  fun x hx => (h.isText x hx).isTree

theorem isTree_entries (h : p.WellTyped) : (Value.map p.entries).isTree = true :=
  Value.isTree_given h.isTree

/-- What a platform is written as is read back as the same platform. -/
theorem decode_written (h : p.WellTyped) :
    decode (if (Value.map p.entries).isTruthy then some (.map p.entries) else none) = .ok p := by
  have hfield : ∀ name v, (name, v) ∈ p.fields →
      (field? name p.entries).getD (.str "") = v := by
    intro name v hv
    have hfound : field? name p.entries = if v.isTruthy then some v else none :=
      Value.field?_given (by simp [fields]) h.isTree hv
    rw [hfound, Value.getD_given (h.isText _ hv).eq_of_not_isTruthy]
  obtain ⟨version, hversion⟩ := h.version
  rw [decode, Value.orEmpty_given]
  simp only [Value.getD, Value.get_map, Outcome.ok_bind, Outcome.pure_eq_ok,
    hfield "os" p.os (by simp [fields]), hfield "arch" p.arch (by simp [fields]),
    hfield "variant" p.variant (by simp [fields]), hfield "version" p.version (by simp [fields]),
    hversion]
  obtain ⟨os, arch, variant, _⟩ := p
  cases hversion
  rfl

theorem accepts_written (h : p.WellTyped) :
    Schema.accepts [.type [.object], .properties schemas] (.map p.entries) = true := by
  refine Value.accepts_given h.isTree fun x hx schema hschema => ?_
  obtain ⟨s, hs⟩ := h.isText x hx
  simp only [schemas, List.mem_cons, Prod.mk.injEq, List.not_mem_nil, or_false] at hschema
  rcases hschema with hschema | hschema | hschema | hschema
  · exact hschema.2 ▸ Schema.accepts_string_iff.mpr ⟨s, hs⟩
  · exact hschema.2 ▸ Schema.accepts_string_iff.mpr ⟨s, hs⟩
  · exact hschema.2 ▸ Schema.accepts_string_iff.mpr ⟨s, hs⟩
  · exact hschema.2 ▸ Schema.accepts_version_iff.mpr (.inl ⟨s, hs⟩)

theorem equal_self (h : p.WellTyped) : p.equal p = true := by
  rw [equal, h.os.equal_self, h.arch.equal_self, h.variant.equal_self, h.version.equal_self]
  rfl

end Platform

/-! ### The clone settings -/

namespace Clone

/-- The fields of the clone settings with their schemas. -/
def schemas : List (String × Schema) :=
  [("depth", [.type [.integer], .minimum 0]), ("disable", [.type [.boolean]]),
    ("skip_verify", [.type [.boolean]])]

/-- The fields of the clone settings with their values. -/
def fields (c : Clone) : List (String × Value) :=
  [("depth", c.depth), ("disable", .bool c.disable.isTruthy),
    ("skip_verify", .bool c.skipVerify.isTruthy)]

/-- Clone settings with a depth and two booleans. -/
structure WellTyped (c : Clone) : Prop where
  depth : Schema.IsDepth c.depth
  disable : c.disable.IsSwitch
  skipVerify : c.skipVerify.IsSwitch

theorem decode_of_accepts {section? : Option Value}
    (h : ∀ v, section? = some v →
      Schema.accepts [.type [.object], .properties schemas] v = true) :
    ∃ c, decode section? = .ok c ∧ c.WellTyped := by
  obtain ⟨es, hes, hfields⟩ := Value.orEmpty_of_accepts h
  have hdepth : Schema.IsDepth ((field? "depth" es).getD (.int 0)) :=
    Value.getD_field? ⟨0, Int.le_refl 0, .inl rfl⟩ fun w hw =>
      Schema.accepts_depth_iff.mp (hfields _ List.mem_cons_self w hw)
  have hswitch : ∀ name, (name, ([.type [.boolean]] : Schema)) ∈ schemas →
      ((field? name es).getD (.bool false)).IsSwitch := fun name hname =>
    Value.getD_field? ⟨false, rfl⟩ fun w hw =>
      Schema.accepts_boolean_iff.mp (hfields _ hname w hw)
  have hdisable := hswitch "disable" (by simp [schemas])
  have hskip := hswitch "skip_verify" (by simp [schemas])
  refine ⟨{
    depth := (field? "depth" es).getD (.int 0)
    disable := (field? "disable" es).getD (.bool false)
    skipVerify := (field? "skip_verify" es).getD (.bool false) },
    ?_, ⟨hdepth, hdisable, hskip⟩⟩
  simp only [decode, hes, Value.getD, Value.get_map, Outcome.ok_bind, Outcome.pure_eq_ok]

variable {c : Clone}

theorem WellTyped.isTree (h : c.WellTyped) : ∀ x ∈ c.fields, x.2.isTree = true := by
  simp only [fields, List.mem_cons, List.not_mem_nil, or_false]
  rintro x (rfl | rfl | rfl)
  · exact h.depth.isTree
  · rfl
  · rfl

theorem isTree_entries (h : c.WellTyped) : (Value.map c.entries).isTree = true :=
  Value.isTree_given h.isTree

/-- The settings with a depth of zero held as a whole number. -/
def wholeZero (c : Clone) : Clone :=
  { c with depth := if c.depth.isTruthy then c.depth else .int 0 }

/-- What clone settings are written as is read back as the same settings. -/
theorem decode_written (h : c.WellTyped) :
    decode (if (Value.map c.entries).isTruthy then some (.map c.entries) else none)
      = .ok c.wholeZero := by
  have hfield : ∀ name v, (name, v) ∈ c.fields →
      field? name c.entries = if v.isTruthy then some v else none := fun name v hv =>
    Value.field?_given (by simp [fields]) h.isTree hv
  have hdepth : (field? "depth" c.entries).getD (.int 0) = c.wholeZero.depth := by
    rw [hfield "depth" c.depth (by simp [fields]), wholeZero]
    cases c.depth.isTruthy <;> rfl
  have hdisable : (field? "disable" c.entries).getD (.bool false) = c.disable := by
    rw [hfield "disable" (.bool c.disable.isTruthy) (by simp [fields]),
      ← h.disable.eq_bool_isTruthy]
    exact Value.getD_given fun hf => h.disable.eq_bool_isTruthy.trans (hf ▸ rfl)
  have hskip : (field? "skip_verify" c.entries).getD (.bool false) = c.skipVerify := by
    rw [hfield "skip_verify" (.bool c.skipVerify.isTruthy) (by simp [fields]),
      ← h.skipVerify.eq_bool_isTruthy]
    exact Value.getD_given fun hf => h.skipVerify.eq_bool_isTruthy.trans (hf ▸ rfl)
  rw [decode, Value.orEmpty_given]
  simp only [Value.getD, Value.get_map, Outcome.ok_bind, Outcome.pure_eq_ok, hdepth, hdisable,
    hskip]
  rfl

theorem accepts_written (h : c.WellTyped) :
    Schema.accepts [.type [.object], .properties schemas] (.map c.entries) = true := by
  refine Value.accepts_given h.isTree fun x hx schema hschema => ?_
  simp only [fields, List.mem_cons, List.not_mem_nil, or_false] at hx
  rcases hx with rfl | rfl | rfl
  · simp only [schemas, List.mem_cons, Prod.mk.injEq, String.reduceEq, false_and, or_false,
      List.not_mem_nil, true_and] at hschema
    exact hschema ▸ Schema.accepts_depth_iff.mpr h.depth
  · simp only [schemas, List.mem_cons, Prod.mk.injEq, String.reduceEq, false_and, or_false,
      false_or, List.not_mem_nil, true_and] at hschema
    exact hschema ▸ Schema.accepts_boolean_iff.mpr ⟨_, rfl⟩
  · simp only [schemas, List.mem_cons, Prod.mk.injEq, String.reduceEq, false_and, or_false,
      false_or, List.not_mem_nil, true_and] at hschema
    exact hschema ▸ Schema.accepts_boolean_iff.mpr ⟨_, rfl⟩

theorem wellTyped_wholeZero (h : c.WellTyped) : c.wholeZero.WellTyped := by
  refine ⟨?_, h.disable, h.skipVerify⟩
  rw [wholeZero]
  split
  · exact h.depth
  · exact ⟨0, Int.le_refl 0, .inl rfl⟩

/-- A depth of zero is not written, whichever way it is held. -/
theorem entries_wholeZero (c : Clone) : c.wholeZero.entries = c.entries := by
  obtain ⟨depth, disable, skipVerify⟩ := c
  cases hdepth : depth.isTruthy with
  | true => simp only [wholeZero, hdepth, if_true]
  | false =>
    have hzero : (Value.int 0).isTruthy = false := rfl
    simp only [entries, wholeZero, givenEntries_cons, hdepth, hzero, Bool.false_eq_true, if_false]

/-- A depth of zero is equal to the whole number zero, so settings that are read back are equal
to those that were written. -/
theorem wholeZero_equal (h : c.WellTyped) : c.wholeZero.equal c = true := by
  have hdepth : c.wholeZero.depth.equal c.depth = true := by
    rw [wholeZero]
    cases hc : c.depth.isTruthy with
    | true => exact h.depth.equal_self
    | false => exact h.depth.equal_zero hc
  rw [equal, hdepth]
  exact Bool.and_eq_true_iff.mpr ⟨h.disable.equal_self, h.skipVerify.equal_self⟩

end Clone

end PipelineManifest
