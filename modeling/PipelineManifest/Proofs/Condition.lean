import PipelineManifest.Proofs.Outcome
import PipelineManifest.Proofs.Value.Kinds
import PipelineManifest.Proofs.Value.WellFormed

/-!
# `PipelineManifest.Proofs.Condition`: conditions that are read and written

A schema accepts the values that stand for conditions, and the decoder reads them without a
fault; what conditions are written as is accepted and read back as the same conditions.

* `Condition.decode_of_accepts`, `Conditions.decode_of_accepts`: accepted values are decoded.
  The names of subjects must not repeat, since a schema looks at the first entry of a name and
  the decoder at every one.
* `Conditions.on_of_decodeEntries`: what is read from each entry.
* `Condition.decode_toValue`, `Conditions.decode_toValue`: what is written is read back.
* `Condition.accepts_toValue`, `Conditions.accepts_toValue`: what is written is accepted.
-/

set_option autoImplicit false

namespace PipelineManifest

open Schema (accepts_stringOrList_iff accepts_condition_iff accepts_conditions_iff
  otherEntries_eq_nil_iff unknownKeys_eq_map)
open Value (field? entries)

namespace Value

/-- A well-formed mapping holds at most one value under a text, so an entry is what is found. -/
theorem lookup?_of_mem {α : Type} {es : List (Value × α)} {name : String} {v : α}
    (hd : areDistinct (es.map Prod.fst) = true) (h : (str name, v) ∈ es) :
    lookup? (str name) es = some v := by
  induction es with
  | nil => cases h
  | cons e es ih =>
    obtain ⟨k, w⟩ := e
    simp only [List.map_cons, areDistinct, Bool.and_eq_true, Bool.not_eq_true'] at hd
    rcases List.mem_cons.mp h with h | h
    · cases h
      simp
    · rw [lookup?_cons]
      have hk : sameKey k (str name) = false :=
        by
        rw [List.any_eq_false] at hd
        simpa using hd.1 _ (List.mem_map_of_mem h)
      rw [hk]
      exact ih hd.2 h

end Value

namespace Condition

theorem texts?_eq_some_iff {vs : List Value} {ss : List String} :
    texts? vs = some ss ↔ vs = ss.map .str := by
  induction vs generalizing ss with
  | nil => cases ss <;> simp [texts?]
  | cons v vs ih =>
    rw [texts?, List.mapM_cons]
    cases v with
    | str s =>
      cases ss with
      | nil => simp [Value.str?, Option.bind_eq_some_iff]
      | cons t ts => simp [Value.str?, Option.bind_eq_some_iff, ← ih, texts?, and_comm]
    | _ => cases ss <;> simp [Value.str?]

theorem texts?_items_eq_some_iff {vs : List Value} {ss : List String} :
    texts? (Value.items vs) = some ss ↔ vs = ss.map .str :=
  texts?_eq_some_iff.trans Schema.items_eq_map_str_iff

@[simp] theorem decodeTexts_textsValue (ss : List String) (place : String) :
    decodeTexts (textsValue ss) place = .ok ss := by
  simp only [textsValue, decodeTexts, texts?_items_eq_some_iff.mpr rfl]

theorem decodeTexts_of_accepts {v : Value} (h : Schema.stringOrList.accepts v = true)
    (place : String) : ∃ ss, decodeTexts v place = .ok ss := by
  rcases accepts_stringOrList_iff.mp h with ⟨s, rfl⟩ | ⟨ss, rfl⟩
  · exact ⟨[s], rfl⟩
  · exact ⟨ss, decodeTexts_textsValue ss place⟩

/-- A value that the schema of conditions accepts is decoded. -/
theorem decode_of_accepts {v : Value} (h : Schema.condition.accepts v = true) (place : String) :
    ∃ c, decode v place = .ok c := by
  rcases accepts_condition_iff.mp h with rfl | hlist | ⟨es, rfl, hfields, hothers⟩
  · exact ⟨{}, rfl⟩
  · rcases accepts_stringOrList_iff.mp hlist with ⟨s, rfl⟩ | ⟨ss, rfl⟩
    · exact ⟨{ included := [s] }, rfl⟩
    · exact ⟨{ included := ss }, by
        simp only [decode]
        rw [show Value.seq (ss.map .str) = textsValue ss from rfl, decodeTexts_textsValue]
        rfl⟩
  · have htexts : ∀ name ∈ ["include", "exclude"],
        ∃ ss, decodeTexts ((field? name es).getD .null) (place ++ "." ++ name) = .ok ss := by
      intro name hname
      cases hf : field? name es with
      | none => exact ⟨[], rfl⟩
      | some w => exact decodeTexts_of_accepts (hfields name hname w hf) _
    obtain ⟨included, hi⟩ := htexts "include" (by simp)
    obtain ⟨excluded, he⟩ := htexts "exclude" (by simp)
    refine ⟨{ included, excluded }, ?_⟩
    simp [decode, unknownKeys_eq_map, hothers, hi, he]

/-- The entries of a written condition. -/
def entries (c : Condition) : List (Value × Value) :=
  (if c.included.isEmpty then [] else [(.str "include", textsValue c.included)])
    ++ (if c.excluded.isEmpty then [] else [(.str "exclude", textsValue c.excluded)])

theorem toValue_eq (c : Condition) : c.toValue = .map c.entries := rfl

theorem isTree_toValue (c : Condition) : c.toValue.isTree = true := by
  rw [toValue_eq, entries, Value.isTree]
  split <;> split <;>
    simp [Value.areTreeEntries, Value.isTree, textsValue, Value.areTrees_map_str]

theorem field?_include (c : Condition) :
    field? "include" c.entries
      = if c.included.isEmpty then none else some (textsValue c.included) := by
  rw [Value.field?_of_isTree (toValue_eq c ▸ c.isTree_toValue), entries]
  split <;> split <;> simp

theorem field?_exclude (c : Condition) :
    field? "exclude" c.entries
      = if c.excluded.isEmpty then none else some (textsValue c.excluded) := by
  rw [Value.field?_of_isTree (toValue_eq c ▸ c.isTree_toValue), entries]
  split <;> split <;> simp

theorem otherEntries_entries (c : Condition) :
    otherEntries ["include", "exclude"] c.entries = [] := by
  rw [otherEntries_eq_nil_iff, entries]
  split <;> split <;> simp

/-- The texts under a name, where an empty list is left out. -/
theorem decodeTexts_unless (ss : List String) (place : String) :
    decodeTexts ((if ss.isEmpty then none else some (textsValue ss)).getD .null) place
      = .ok ss := by
  cases ss with
  | nil => rfl
  | cons s ss => exact decodeTexts_textsValue (s :: ss) place

/-- What a condition is written as is read back as the same condition. -/
theorem decode_toValue (c : Condition) (place : String) : decode c.toValue place = .ok c := by
  rw [toValue_eq]
  simp only [decode, unknownKeys_eq_map, otherEntries_entries, field?_include, field?_exclude,
    decodeTexts_unless, List.map_nil, List.isEmpty_nil, Bool.not_true, Bool.false_eq_true, if_false]
  rfl

theorem accepts_textsValue (ss : List String) :
    Schema.stringOrList.accepts (textsValue ss) = true :=
  accepts_stringOrList_iff.mpr (.inr ⟨ss, rfl⟩)

theorem accepts_toValue (c : Condition) : Schema.condition.accepts c.toValue = true := by
  refine accepts_condition_iff.mpr (.inr (.inr ⟨c.entries, rfl, ?_, c.otherEntries_entries⟩))
  intro name hname w hw
  simp only [List.mem_cons, List.not_mem_nil, or_false] at hname
  rcases hname with rfl | rfl
  · rw [field?_include, Option.ite_none_left_eq_some, Option.some.injEq] at hw
    rw [← hw.2]
    exact accepts_textsValue c.included
  · rw [field?_exclude, Option.ite_none_left_eq_some, Option.some.injEq] at hw
    rw [← hw.2]
    exact accepts_textsValue c.excluded

end Condition

namespace Conditions

theorem ofName?_name (s : Subject) : Subject.ofName? s.name = some s := by
  cases s <;> decide

theorem eq_of_name_eq {s t : Subject} (h : s.name = t.name) : s = t :=
  Option.some.inj (by rw [← ofName?_name, h, ofName?_name])

theorem str?_of_ofName? {k : Value} {s : Subject} (h : k.str?.bind Subject.ofName? = some s) :
    k = .str s.name := by
  cases k with
  | str name =>
    have hname : s.name = name := by simpa using List.find?_some h
    rw [hname]
  | _ => cases h

/-- Entries that all hold a condition are entered without a fault. -/
theorem exists_decodeEntries (place : String) {es : List (Value × Value)}
    (h : ∀ e ∈ es, ∀ place, ∃ c, Condition.decode e.2 place = .ok c) (cs : Conditions) :
    ∃ ds, decodeEntries place cs es = .ok ds := by
  induction es generalizing cs with
  | nil => exact ⟨cs, rfl⟩
  | cons e es ih =>
    obtain ⟨k, v⟩ := e
    obtain ⟨hv, hes⟩ := List.forall_mem_cons.mp h
    obtain ⟨c, hc⟩ := hv (place ++ "." ++ k.text)
    simp only [decodeEntries, hc, Outcome.ok_bind]
    split
    · exact ih hes _
    · exact ih hes _

/-- Where no name repeats, the condition of a subject is read from its entry. -/
theorem on_of_decodeEntries {place : String} {es : List (Value × Value)} {cs ds : Conditions}
    (hdistinct : Value.areDistinct (es.map Prod.fst) = true)
    (h : decodeEntries place cs es = .ok ds) (s : Subject) :
    (Value.lookup? (.str s.name) es = Option.none ∧ ds.on s = cs.on s) ∨
      ∃ v place', Value.lookup? (.str s.name) es = some v ∧
        Condition.decode v place' = .ok (ds.on s) := by
  induction es generalizing cs with
  | nil =>
    cases h
    exact .inl ⟨rfl, rfl⟩
  | cons e es ih =>
    obtain ⟨k, v⟩ := e
    rw [List.map_cons, Value.areDistinct, Bool.and_eq_true, Bool.not_eq_true',
      List.any_eq_false] at hdistinct
    obtain ⟨c, hc, h⟩ := Outcome.bind_eq_ok_iff.mp h
    by_cases hk : k = .str s.name
    · subst hk
      simp only [Value.str?, Option.bind_some, ofName?_name] at h
      -- The name does not come again, so the condition that is set here stays.
      have hnone : Value.lookup? (.str s.name) es = Option.none := by
        rw [Option.eq_none_iff_forall_ne_some]
        intro w hw
        exact hdistinct.1 _ (List.mem_map_of_mem (Value.mem_of_lookup?_str hw)) (by simp)
      have hon : ds.on s = (cs.set s c).on s := by
        rcases ih hdistinct.2 h with ⟨-, hon⟩ | ⟨w, -, hw, -⟩
        · exact hon
        · rw [hnone] at hw
          cases hw
      refine .inr ⟨v, place ++ "." ++ (Value.str s.name).text, ?_, ?_⟩
      · rw [Value.lookup?_str_cons, if_pos rfl]
      · rw [hon, hc, set]
        simp
    · rw [Value.lookup?_cons, if_neg (by rwa [Value.sameKey_str_iff])]
      split at h
      · rename_i t ht
        have hst : s ≠ t := by
          rintro rfl
          exact hk (str?_of_ofName? ht)
        have hset : (cs.set t c).on s = cs.on s := by simp [set, hst]
        rw [← hset]
        exact ih hdistinct.2 h
      · exact ih hdistinct.2 h

/-- In a mapping without unknown keys an entry is what is found under the name of some subject. -/
theorem field?_of_mem_entries {es : List (Value × Value)}
    (hdistinct : Value.areDistinct (es.map Prod.fst) = true)
    (hothers : otherEntries (Subject.all.map Subject.name) es = []) {e : Value × Value}
    (he : e ∈ Value.entries es) : ∃ s : Subject, field? s.name es = some e.2 := by
  obtain ⟨k, w⟩ := e
  have hkey : k ∈ es.map Prod.fst := by
    rw [← Value.keys_entries]
    exact List.mem_map_of_mem he
  obtain ⟨f, hf, hfk⟩ := List.mem_map.mp hkey
  obtain ⟨name, hname, hk⟩ := otherEntries_eq_nil_iff.mp hothers f hf
  obtain ⟨s, -, rfl⟩ := List.mem_map.mp hname
  rw [hfk] at hk
  subst hk
  rw [← Value.keys_entries] at hdistinct
  exact ⟨s, Value.lookup?_of_mem hdistinct he⟩

/-- The entries of a mapping that the schema accepts hold conditions. -/
theorem accepts_of_mem_entries {es : List (Value × Value)}
    (hdistinct : Value.areDistinct (es.map Prod.fst) = true)
    (h : Schema.conditions.accepts (.map es) = true) {e : Value × Value}
    (he : e ∈ Value.entries es) : Schema.condition.accepts e.2 = true := by
  obtain h | ⟨_, heq, hfields, hothers⟩ := accepts_conditions_iff.mp h
  · cases h
  · cases heq
    obtain ⟨s, hs⟩ := field?_of_mem_entries hdistinct hothers he
    exact hfields s (Subject.mem_all s) e.2 hs

/-- A value that the schema accepts is decoded, if no name repeats. -/
theorem decode_of_accepts {v : Value} (hv : v.hasDistinctKeys = true)
    (h : Schema.conditions.accepts v = true) (place : String) :
    ∃ cs, decode v place = .ok cs := by
  rcases accepts_conditions_iff.mp h with rfl | ⟨es, rfl, -, hothers⟩
  · exact ⟨none, rfl⟩
  · obtain ⟨ds, hds⟩ := exists_decodeEntries place
      (fun e he => Condition.decode_of_accepts (accepts_of_mem_entries hv h he)) none
    refine ⟨ds, ?_⟩
    simp [decode, unknownKeys_eq_map, hothers, hds]

/-! ### Written conditions -/

/-- The entries of written conditions. -/
def entries (cs : Conditions) : List (Value × Value) :=
  cs.toList.map fun (s, c) => (.str s.name, c.toValue)

theorem toValue_eq (cs : Conditions) : cs.toValue = .map cs.entries := rfl

theorem areTreeEntries_entries (l : List (Subject × Condition)) :
    Value.areTreeEntries (l.map fun (s, c) => (.str s.name, c.toValue)) = true := by
  induction l with
  | nil => rfl
  | cons p l ih =>
    simp only [List.map_cons, Value.areTreeEntries, Value.isTree, Condition.isTree_toValue,
      Bool.and_self, Bool.true_and]
    exact ih

theorem isTree_toValue (cs : Conditions) : cs.toValue.isTree = true := by
  rw [toValue, Value.isTree]
  exact areTreeEntries_entries cs.toList

theorem otherEntries_entries (cs : Conditions) :
    otherEntries (Subject.all.map Subject.name) cs.entries = [] := by
  rw [otherEntries_eq_nil_iff]
  intro e he
  obtain ⟨p, -, rfl⟩ := List.mem_map.mp he
  exact ⟨p.1.name, List.mem_map_of_mem (Subject.mem_all p.1), rfl⟩

/-- Entering a written list of conditions sets each of them in turn. -/
theorem decodeEntries_map (place : String) (l : List (Subject × Condition)) (cs : Conditions) :
    decodeEntries place cs (l.map fun (s, c) => (.str s.name, c.toValue))
      = .ok (l.foldl (fun cs p => cs.set p.1 p.2) cs) := by
  induction l generalizing cs with
  | nil => rfl
  | cons p l ih =>
    simp only [List.map_cons, decodeEntries, Condition.decode_toValue, Outcome.ok_bind,
      Value.str?, Option.bind_some, ofName?_name, ih, List.foldl_cons]

/-- Setting the conditions that list a pattern, for some subjects, sets these subjects; the
conditions of the others stay. -/
theorem foldl_set_on (cs ds : Conditions) (ss : List Subject) (t : Subject) :
    (((ss.map fun s => (s, cs.on s)).filter fun p => !p.2.isEmpty).foldl
      (fun ds p => ds.set p.1 p.2) ds).on t
      = if t ∈ ss ∧ (cs.on t).isEmpty = false then cs.on t else ds.on t := by
  induction ss generalizing ds with
  | nil => simp
  | cons s ss ih =>
    rw [List.map_cons, List.filter_cons]
    by_cases he : (cs.on s).isEmpty = true
    · rw [if_neg (by simpa using he), ih]
      by_cases hts : t = s
      · subst hts
        simp [he]
      · simp [hts]
    · rw [if_pos (by simpa using he), List.foldl_cons, ih]
      by_cases hts : t = s
      · subst hts
        simp [set, he]
      · simp [set, hts]

theorem Condition.eq_of_isEmpty {c : Condition} (h : c.isEmpty = true) : c = {} := by
  obtain ⟨included, excluded⟩ := c
  simp only [Condition.isEmpty, Bool.and_eq_true, List.isEmpty_iff] at h
  rw [h.1, h.2]

/-- What conditions are written as is read back as the same conditions. -/
theorem decode_toValue (cs : Conditions) (place : String) : decode cs.toValue place = .ok cs := by
  have hentries : Value.entries cs.entries = cs.entries :=
    Value.entries_of_areTreeEntries _ (areTreeEntries_entries cs.toList)
  rw [toValue_eq]
  simp only [decode, unknownKeys_eq_map, otherEntries_entries, hentries, List.map_nil,
    List.isEmpty_nil, Bool.not_true, Bool.false_eq_true, if_false]
  rw [entries, decodeEntries_map]
  refine congrArg Except.ok ?_
  have hon : ∀ t, (cs.toList.foldl (fun ds p => ds.set p.1 p.2) none).on t = cs.on t := by
    intro t
    rw [toList, foldl_set_on]
    split
    · rfl
    · rename_i h
      have he : (cs.on t).isEmpty = true := by simpa [Subject.mem_all] using h
      rw [Condition.eq_of_isEmpty he]
      rfl
  obtain ⟨f⟩ := cs
  exact congrArg Conditions.mk (funext hon)

theorem accepts_toValue (cs : Conditions) : Schema.conditions.accepts cs.toValue = true := by
  refine accepts_conditions_iff.mpr (.inr ⟨cs.entries, rfl, ?_, cs.otherEntries_entries⟩)
  intro s _ w hw
  rw [Value.field?_of_isTree (toValue_eq cs ▸ cs.isTree_toValue)] at hw
  obtain ⟨p, -, hp⟩ := List.mem_map.mp (Value.mem_of_lookup?_str hw)
  rw [← (Prod.mk.inj hp).2]
  exact p.2.accepts_toValue

end Conditions

end PipelineManifest
