import PipelineManifest.Proofs.Condition
import PipelineManifest.Proofs.Settings

/-!
# `PipelineManifest.Proofs.Schema.Decoders`: schemas and decoders of the same shapes

Conditions and variables have schemas, and they have decoders that check shapes on their own. Here
the shapes that the decoders read are written down as relations, with what each shape stands for.
The schemas accept the same shapes, apart from two gaps: a schema takes no null for a list that is
there, and no key next to the one that names a secret. The decoder of variables also makes a text of
a number, which fails for a whole number that is too long to be written.

* `Condition.Means`, `Conditions.Mean`: what values stand for.
* `Condition.decode_eq_ok_iff`, `Conditions.decode_eq_ok_iff`: the decoders read just that.
* `Condition.accepts_iff_means`, `Conditions.accepts_iff_decode`, `Variable.accepts_iff_decode`:
  what the schemas accept.
* `Schema.agrees_with_decoders`: schemas and decoders compared, and what is decoded.
-/

set_option autoImplicit false

namespace PipelineManifest

open Schema (accepts_stringOrList_iff accepts_condition_iff accepts_conditions_iff
  otherEntries_eq_nil_iff unknownKeys_eq_map)
open Value (field? entries)

/-! ### One condition -/

namespace Condition

/-- The texts that the value of a list stands for, if there is one. -/
inductive Lists : Option Value → List String → Prop
  | missing : Lists none []
  | null : Lists (some .null) []
  | text (s : String) : Lists (some (.str s)) [s]
  | texts (ss : List String) : Lists (some (.seq (ss.map .str))) ss

/-- The condition that a value stands for, if there is one: a list is one of patterns to include. -/
inductive Means : Option Value → Condition → Prop
  | list {o : Option Value} {ss : List String} (texts : Lists o ss) : Means o { included := ss }
  | lists {es : List (Value × Value)} {c : Condition}
      (keys : ∀ e ∈ es, ∃ name ∈ ["include", "exclude"], e.1 = .str name)
      (included : Lists (field? "include" es) c.included)
      (excluded : Lists (field? "exclude" es) c.excluded) : Means (some (.map es)) c

/-- Whether a value is a mapping with null for a list. -/
def HoldsNull (v : Value) : Prop :=
  ∃ es, v = .map es ∧ ∃ name ∈ ["include", "exclude"], field? name es = some .null

variable {o : Option Value} {v : Value} {c c' : Condition} {place : String}

theorem decodeTexts_eq_ok_iff {ss : List String} :
    decodeTexts (o.getD .null) place = .ok ss ↔ Lists o ss := by
  constructor
  · intro h
    cases o with
    | none =>
      cases h
      exact .missing
    | some v =>
      cases v with
      | null =>
        cases h
        exact .null
      | str s =>
        cases h
        exact .text s
      | seq vs =>
        rw [Option.getD_some, decodeTexts] at h
        split at h
        · rename_i ts hts
          cases h
          rw [texts?_items_eq_some_iff.mp hts]
          exact .texts ss
        · cases h
      | _ => cases h
  · rintro (_ | _ | s | ss)
    · rfl
    · rfl
    · rfl
    · exact decodeTexts_textsValue ss place

theorem decode_of_lists {ss : List String} (h : Lists o ss) :
    decode (o.getD .null) place = .ok { included := ss } := by
  cases h with
  | missing => rfl
  | null => rfl
  | text s => rfl
  | texts =>
    simp only [Option.getD_some, decode]
    rw [show Value.seq (ss.map .str) = textsValue ss from rfl, decodeTexts_textsValue]
    rfl

/-- Of a mapping the two lists are read, unless there are other keys. -/
theorem decode_map_eq_ok_iff {es : List (Value × Value)} :
    decode (.map es) place = .ok c ↔
      (∀ e ∈ es, ∃ name ∈ ["include", "exclude"], e.1 = .str name) ∧
        Lists (field? "include" es) c.included ∧ Lists (field? "exclude" es) c.excluded := by
  rw [← otherEntries_eq_nil_iff]
  simp only [decode, unknownKeys_eq_map]
  cases hothers : otherEntries ["include", "exclude"] es with
  | cons e rest =>
    -- There is a fault whether or not the unknown keys can be put in order for its message.
    refine iff_of_false (fun h => ?_) (by simp)
    obtain ⟨-, h, -⟩ := Outcome.bind_eq_ok_iff.mp h
    obtain ⟨text, -, h⟩ := Outcome.bind_eq_ok_iff.mp h
    cases h
  | nil =>
    simp only [List.map_nil, List.isEmpty_nil, Bool.not_true, Bool.false_eq_true, if_false,
      true_and]
    constructor
    · intro h
      obtain ⟨included, hincluded, h⟩ := Outcome.bind_eq_ok_iff.mp h
      obtain ⟨excluded, hexcluded, h⟩ := Outcome.bind_eq_ok_iff.mp h
      cases h
      exact ⟨decodeTexts_eq_ok_iff.mp hincluded, decodeTexts_eq_ok_iff.mp hexcluded⟩
    · rintro ⟨hincluded, hexcluded⟩
      rw [decodeTexts_eq_ok_iff.mpr hincluded, decodeTexts_eq_ok_iff.mpr hexcluded]
      rfl

/-- The decoder reads what a value stands for. -/
theorem decode_eq_ok_iff : decode (o.getD .null) place = .ok c ↔ Means o c := by
  constructor
  · intro h
    rcases o with _ | v
    · cases h
      exact .list .missing
    · cases v with
      | map es =>
        obtain ⟨hkeys, hincluded, hexcluded⟩ := decode_map_eq_ok_iff.mp h
        exact .lists hkeys hincluded hexcluded
      | null =>
        cases h
        exact .list .null
      | _ =>
        obtain ⟨ss, hss, h⟩ := Outcome.bind_eq_ok_iff.mp h
        cases h
        exact .list (decodeTexts_eq_ok_iff.mp hss)
  · rintro (hlist | ⟨hkeys, hincluded, hexcluded⟩)
    · exact decode_of_lists hlist
    · exact decode_map_eq_ok_iff.mpr ⟨hkeys, hincluded, hexcluded⟩

/-- A value stands for one condition only. -/
theorem Means.eq (h : Means o c) (h' : Means o c') : c = c' := by
  have hc : decode (o.getD .null) "" = .ok c := decode_eq_ok_iff.mpr h
  have hc' : decode (o.getD .null) "" = .ok c' := decode_eq_ok_iff.mpr h'
  exact Except.ok.inj (hc.symm.trans hc')

/-- A list that is there is accepted unless it is null. -/
theorem accepts_stringOrList_iff_lists :
    Schema.stringOrList.accepts v = true ↔ (∃ ss, Lists (some v) ss) ∧ v ≠ .null := by
  rw [accepts_stringOrList_iff]
  constructor
  · rintro (⟨s, rfl⟩ | ⟨ss, rfl⟩)
    · exact ⟨⟨_, .text s⟩, by simp⟩
    · exact ⟨⟨_, .texts ss⟩, by simp⟩
  · rintro ⟨⟨ss, _ | _ | s | ss⟩, hnull⟩
    · exact absurd rfl hnull
    · exact .inl ⟨s, rfl⟩
    · exact .inr ⟨ss, rfl⟩

/-- The schema accepts the values that stand for conditions, apart from mappings with null for a
list. -/
theorem accepts_iff_means :
    Schema.condition.accepts v = true ↔ (∃ c, Means (some v) c) ∧ ¬HoldsNull v := by
  rw [accepts_condition_iff]
  constructor
  · rintro (rfl | hlist | ⟨es, rfl, hfields, hothers⟩)
    · exact ⟨⟨_, .list .null⟩, by rintro ⟨es, heq, -⟩; cases heq⟩
    · obtain ⟨⟨ss, hss⟩, -⟩ := accepts_stringOrList_iff_lists.mp hlist
      refine ⟨⟨_, .list hss⟩, ?_⟩
      rintro ⟨es, rfl, -⟩
      cases hss
    · have hlists : ∀ name ∈ ["include", "exclude"], ∃ ss, Lists (field? name es) ss := by
        intro name hname
        cases hfield : field? name es with
        | none => exact ⟨[], .missing⟩
        | some w => exact (accepts_stringOrList_iff_lists.mp (hfields name hname w hfield)).1
      obtain ⟨included, hincluded⟩ := hlists "include" (by simp)
      obtain ⟨excluded, hexcluded⟩ := hlists "exclude" (by simp)
      have hkeys := otherEntries_eq_nil_iff.mp hothers
      refine ⟨⟨{ included, excluded }, .lists hkeys hincluded hexcluded⟩, ?_⟩
      rintro ⟨_, heq, name, hname, hnull⟩
      cases heq
      exact (accepts_stringOrList_iff_lists.mp (hfields name hname _ hnull)).2 rfl
  · rintro ⟨⟨c, hlist | ⟨hkeys, hincluded, hexcluded⟩⟩, hnull⟩
    · -- By itself a null is accepted, unlike a null that is named as a list.
      by_cases hv : v = .null
      · exact .inl hv
      · exact .inr (.inl (accepts_stringOrList_iff_lists.mpr ⟨⟨_, hlist⟩, hv⟩))
    · refine .inr (.inr ⟨_, rfl, fun name hname w hw => ?_, otherEntries_eq_nil_iff.mpr hkeys⟩)
      refine accepts_stringOrList_iff_lists.mpr ⟨?_, ?_⟩
      · simp only [List.mem_cons, List.not_mem_nil, or_false] at hname
        rcases hname with rfl | rfl
        · exact ⟨_, hw ▸ hincluded⟩
        · exact ⟨_, hw ▸ hexcluded⟩
      · rintro rfl
        exact hnull ⟨_, rfl, name, hname, hw⟩

/-- The ways to write a condition with one pattern to include. -/
def spellings (text : String) : List Value :=
  [.str text, .seq [.str text], .map [(.str "include", .str text)],
    .map [(.str "include", .seq [.str text])]]

theorem isTree_of_mem_spellings {text : String} (h : v ∈ spellings text) : v.isTree = true := by
  simp only [spellings, List.mem_cons, List.not_mem_nil, or_false] at h
  rcases h with rfl | rfl | rfl | rfl <;> rfl

theorem means_include {text : String} (hv : v.isTree = true) (h : Lists (some v) [text]) :
    Means (some (.map [(.str "include", v)])) { included := [text] } := by
  refine .lists (by simp) ?_ ?_
  · rwa [Value.field?_singleton hv, if_pos rfl]
  · rw [Value.field?_singleton hv, if_neg (by decide)]
    exact .missing

theorem means_of_mem_spellings {text : String} (h : v ∈ spellings text) :
    Means (some v) { included := [text] } := by
  simp only [spellings, List.mem_cons, List.not_mem_nil, or_false] at h
  rcases h with rfl | rfl | rfl | rfl
  · exact .list (.text text)
  · exact .list (.texts [text])
  · exact means_include rfl (.text text)
  · exact means_include rfl (.texts [text])

end Condition

/-! ### The conditions of all subjects -/

namespace Conditions

/-- The conditions that a value stands for. -/
inductive Mean : Value → Conditions → Prop
  | null : Mean .null none
  | map {es : List (Value × Value)} {cs : Conditions}
      (keys : ∀ e ∈ es, ∃ name ∈ Subject.all.map Subject.name, e.1 = .str name)
      (on : ∀ s : Subject, Condition.Means (field? s.name es) (cs.on s)) : Mean (.map es) cs

variable {v : Value} {cs ds : Conditions} {place : String}

theorem eq_of_on_eq (h : ∀ s, cs.on s = ds.on s) : cs = ds := by
  obtain ⟨f⟩ := cs
  obtain ⟨g⟩ := ds
  exact congrArg Conditions.mk (funext h)

/-- What is entered under the name of a subject is what stands there. -/
theorem means_of_decodeEntries {es : List (Value × Value)}
    (hdistinct : Value.areDistinct (es.map Prod.fst) = true)
    (h : decodeEntries place none (Value.entries es) = .ok cs) (s : Subject) :
    Condition.Means (field? s.name es) (cs.on s) := by
  rw [← Value.keys_entries] at hdistinct
  rcases on_of_decodeEntries hdistinct h s with ⟨hnone, hon⟩ | ⟨w, place', hw, hc⟩
  · rw [field?, hnone, hon]
    exact .list .missing
  · rw [field?, hw]
    exact Condition.decode_eq_ok_iff.mp hc

/-- Entries that stand for conditions are entered without a fault. -/
theorem exists_decodeEntries_of_means (place : String) {es : List (Value × Value)}
    (hdistinct : Value.areDistinct (es.map Prod.fst) = true)
    (hothers : otherEntries (Subject.all.map Subject.name) es = [])
    (on : ∀ s : Subject, Condition.Means (field? s.name es) (cs.on s)) :
    ∃ ds, decodeEntries place none (Value.entries es) = .ok ds := by
  refine exists_decodeEntries place (fun e he place => ?_) none
  obtain ⟨s, hs⟩ := field?_of_mem_entries hdistinct hothers he
  exact ⟨cs.on s, Condition.decode_eq_ok_iff (o := some e.2).mpr (hs ▸ on s)⟩

/-- Of a mapping the entries are read, unless there are other keys. -/
theorem decode_map_eq_ok_iff {es : List (Value × Value)} :
    decode (.map es) place = .ok cs ↔ otherEntries (Subject.all.map Subject.name) es = [] ∧
      decodeEntries place none (Value.entries es) = .ok cs := by
  simp only [decode, unknownKeys_eq_map]
  cases hothers : otherEntries (Subject.all.map Subject.name) es with
  | cons e rest =>
    refine iff_of_false (fun h => ?_) (by simp)
    obtain ⟨-, h, -⟩ := Outcome.bind_eq_ok_iff.mp h
    obtain ⟨text, -, h⟩ := Outcome.bind_eq_ok_iff.mp h
    cases h
  | nil => simp

/-- The decoder reads what a value stands for, if no name repeats. -/
theorem decode_eq_ok_iff (hv : v.hasDistinctKeys = true) :
    decode v place = .ok cs ↔ Mean v cs := by
  cases v with
  | null =>
    refine ⟨fun h => ?_, fun h => ?_⟩
    · cases h
      exact .null
    · cases h
      rfl
  | map es =>
    rw [decode_map_eq_ok_iff]
    constructor
    · rintro ⟨hothers, h⟩
      exact .map (otherEntries_eq_nil_iff.mp hothers) (means_of_decodeEntries hv h)
    · rintro ⟨⟩
      rename_i keys on
      have hothers := otherEntries_eq_nil_iff.mpr keys
      -- Some conditions are read, and what is read is what the value stands for.
      obtain ⟨ds, hds⟩ := exists_decodeEntries_of_means place hv hothers on
      rw [eq_of_on_eq fun s => (on s).eq (means_of_decodeEntries hv hds s)]
      exact ⟨hothers, hds⟩
  | _ => exact iff_of_false (by rintro ⟨⟩) (by rintro ⟨⟩)

/-- The schema accepts the values that are decoded, apart from those that hold a condition with null
for a list. -/
theorem accepts_iff_decode (hv : v.hasDistinctKeys = true) (place : String) :
    Schema.conditions.accepts v = true ↔ (∃ cs, decode v place = .ok cs) ∧
      ∀ es, v = .map es → ∀ e ∈ Value.entries es, ¬Condition.HoldsNull e.2 := by
  constructor
  · intro h
    refine ⟨decode_of_accepts hv h place, ?_⟩
    rintro es rfl e he
    exact (Condition.accepts_iff_means.mp (accepts_of_mem_entries hv h he)).2
  · rintro ⟨⟨cs, hcs⟩, hnull⟩
    rw [accepts_conditions_iff]
    rcases (decode_eq_ok_iff hv).mp hcs with _ | ⟨keys, on⟩
    · exact .inl rfl
    · refine .inr ⟨_, rfl, fun s _ w hw => ?_, otherEntries_eq_nil_iff.mpr keys⟩
      exact Condition.accepts_iff_means.mpr
        ⟨⟨_, hw ▸ on s⟩, hnull _ rfl _ (Value.mem_of_lookup?_str hw)⟩

/-- A mapping with one name stands for the condition of that subject alone. -/
theorem mean_singleton {c : Condition} {s : Subject} (hv : v.isTree = true)
    (h : Condition.Means (some v) c) : Mean (.map [(.str s.name, v)]) (none.set s c) := by
  refine .map (by simpa using ⟨s, Subject.mem_all s, rfl⟩) fun t => ?_
  have hon : (none.set s c).on t = if t = s then c else {} := rfl
  rw [Value.field?_singleton hv, hon]
  by_cases hts : t = s
  · rw [hts, if_pos rfl, if_pos rfl]
    exact h
  · rw [if_neg hts, if_neg fun hname => hts (eq_of_name_eq hname).symm]
    exact .list .missing

end Conditions

/-! ### Variables -/

namespace Variable

/-- The schema accepts the values that are decoded, apart from mappings with a key besides the one
that names a secret. It also accepts the whole numbers that are too long to be written. -/
theorem accepts_iff_decode (v : Value) (field : String) :
    Schema.variableValue.accepts v = true ↔
      ((∃ x, decode v field = .ok x) ∧ ∀ es, v = .map es → ∀ e ∈ es, e.1 = .str secretField) ∨
        ∃ i, v = .int i ∧ Number.isWritable i = false := by
  rw [Schema.accepts_variableValue_iff]
  constructor
  · intro h
    obtain ⟨x, hx⟩ := decode_of_accepts (Schema.accepts_variableValue_iff.mpr h) field
    have honly : ∀ es, v = .map es → ∀ e ∈ es, e.1 = .str secretField := by
      rintro es rfl e he
      cases h with
      | secret only _ =>
        obtain ⟨name, hname, hkey⟩ := otherEntries_eq_nil_iff.mp only e he
        rw [hkey, List.mem_singleton.mp hname, secretField]
    -- What is written out is the value itself, and only if it is a scalar.
    rw [spelled] at hx
    cases hscalar : v.isScalar with
    | false =>
      rw [hscalar] at hx
      exact .inl ⟨⟨x, hx⟩, honly⟩
    | true =>
      rcases Value.isWritable_of_isScalar hscalar with hwritable | hlong
      · rw [if_pos hscalar,
          Value.whenWritable_of_forall (List.forall_mem_singleton.mpr hwritable)] at hx
        exact .inl ⟨⟨x, hx⟩, honly⟩
      · exact .inr hlong
  · rintro (⟨⟨x, hx⟩, honly⟩ | ⟨i, rfl, -⟩)
    · cases v with
      | null => exact .null
      | bool b => exact .bool b
      | int i => exact .int i
      | float x => exact .float x
      | str s => exact .str s
      | map es =>
        have hothers : otherEntries ["from_secret"] es = [] :=
          otherEntries_eq_nil_iff.mpr fun e he => ⟨_, List.mem_singleton_self _, honly es rfl e he⟩
        rw [decode, decodeSecret] at hx
        split at hx
        · cases hx
        · rename_i name hname
          exact .secret hothers hname
        · cases hx
      | _ => cases hx
    · exact .int i

/-- A number that is too long is not decoded, although the schema accepts it. -/
theorem decode_int_eq_error {i : Int} (h : Number.isWritable i = false) (field : String) :
    decode (.int i) field = .error .invalidValue := by
  rw [decode_int]
  exact Value.whenWritable_of_mem List.mem_cons_self h

end Variable

namespace Schema

/-- Schemas and decoders accept the same values, but for the two gaps and one fault. The schema of
conditions takes no null where a list is named, and the schema of variables no key besides the one
that names a secret. A whole number that is too long to be written is a variable for the schema, and
its decoder fails. What is decoded is what the value stands for, however it is written: a pattern
alone or in a list, and that by itself or under its name. A null and a name that is missing stand
for the condition without entries. What is written is read back. -/
theorem agrees_with_decoders (v : Value) (hv : v.hasDistinctKeys = true) (place : String) :
    (conditions.accepts v = true ↔ (∃ cs, Conditions.decode v place = .ok cs) ∧
      ∀ es, v = .map es → ∀ e ∈ entries es, ¬Condition.HoldsNull e.2) ∧
    (variableValue.accepts v = true ↔
      ((∃ x, Variable.decode v place = .ok x) ∧
        ∀ es, v = .map es → ∀ e ∈ es, e.1 = .str Variable.secretField) ∨
      ∃ i, v = .int i ∧ Number.isWritable i = false) ∧
    (∀ i, v = .int i → Number.isWritable i = false →
      Variable.decode v place = .error .invalidValue) ∧
    (∀ cs, Conditions.decode v place = .ok cs ↔ Conditions.Mean v cs) ∧
    (∀ text, ∀ w ∈ Condition.spellings text,
      Condition.decode w place = .ok { included := [text] } ∧
        ∀ s : Subject, Conditions.decode (.map [(.str s.name, w)]) place
          = .ok (Conditions.none.set s { included := [text] })) ∧
    Condition.decode .null place = .ok {} ∧
    (∀ es cs, v = .map es → Conditions.decode v place = .ok cs → ∀ s : Subject,
      field? s.name es = none ∨ field? s.name es = some .null → cs.on s = {}) ∧
    (∀ cs : Conditions, Conditions.decode cs.toValue place = .ok cs) ∧
    ∀ x : Variable, Variable.decode x.toValue place = .ok x := by
  refine ⟨Conditions.accepts_iff_decode hv place, Variable.accepts_iff_decode v place, ?_,
    fun cs => Conditions.decode_eq_ok_iff hv, ?_, rfl, ?_, fun cs => cs.decode_toValue place,
    fun x => x.decode_toValue place⟩
  · rintro i rfl h
    exact Variable.decode_int_eq_error h place
  · intro text w hw
    have hmeans := Condition.means_of_mem_spellings hw
    refine ⟨(Condition.decode_eq_ok_iff (o := some w)).mpr hmeans, fun s => ?_⟩
    exact (Conditions.decode_eq_ok_iff rfl).mpr
      (Conditions.mean_singleton (Condition.isTree_of_mem_spellings hw) hmeans)
  · rintro es cs rfl h s hs
    obtain _ | ⟨-, on⟩ := (Conditions.decode_eq_ok_iff hv).mp h
    refine (on s).eq ?_
    rcases hs with hs | hs
    · exact hs ▸ .list .missing
    · exact hs ▸ .list .null

/-- The least number that is too long is accepted as a variable, and cannot be decoded. -/
theorem accepts_longNumber :
    variableValue.accepts (.int Number.writableBound) = true ∧
      Variable.decode (.int Number.writableBound) "value" = .error .invalidValue :=
  ⟨accepts_variableValue_iff.mpr (.int _), Variable.decode_int_eq_error (by decide +kernel) "value"⟩

/-- A null where a condition names a list. -/
def nullList : Value := .map [(.str "branch", .map [(.str "include", .null)])]

/-- The decoder takes it for an empty list, and the schema rejects it. -/
theorem rejects_nullList :
    nullList.hasDistinctKeys = true ∧ conditions.accepts nullList = false ∧
      Conditions.decode nullList "trigger" = .ok (Conditions.none.set .branch {}) := by
  obtain ⟨haccepts, -, -, hdecode, -⟩ := agrees_with_decoders nullList rfl "trigger"
  have hinclude : field? "include" [(.str "include", .null)] = some .null :=
    Value.field?_singleton rfl "include" "include"
  refine ⟨rfl, ?_, ?_⟩
  · rw [Bool.eq_false_iff, ne_eq, haccepts]
    rintro ⟨-, hnull⟩
    refine hnull _ rfl (.str "branch", .map [(.str "include", .null)]) ?_
      ⟨_, rfl, "include", by simp, hinclude⟩
    rw [Value.entries_of_areTreeEntries _ rfl]
    exact List.mem_singleton_self _
  · have hexclude : field? "exclude" [(.str "include", .null)] = none :=
      Value.field?_singleton rfl "exclude" "include"
    have hmeans : Condition.Means (some (.map [(.str "include", .null)])) {} :=
      .lists (by simp) (hinclude ▸ .null) (hexclude ▸ .missing)
    exact (hdecode _).mpr (Conditions.mean_singleton (s := .branch) rfl hmeans)

end Schema

end PipelineManifest
