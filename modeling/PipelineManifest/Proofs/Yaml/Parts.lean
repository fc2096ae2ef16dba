import Mathlib.Data.List.Find
import PipelineManifest.Proofs.Value.Writable
import PipelineManifest.Proofs.Yaml.Layout

/-!
# `PipelineManifest.Proofs.Yaml.Parts`: the parts of layouts

A part of a value is taken out of its container with every reference to the container replaced. The
same can be done with layouts, and then the parts of a reading are the readings of the parts: the
fields and the entries of a mapping, and the items of a sequence.

* `Written.isScalar_resolve`, `Written.resolve_eq_str_iff`: what scalars stand for.
* `Layout.detach`, `Layout.part`, `Layout.itemParts`: the parts of a layout.
* `Layout.isSound`: layouts without explicit tags whose references all lead to open containers.
* `Layout.field?_read`, `Layout.entries_read`, `Layout.items_read`: the parts of a reading.
-/

set_option autoImplicit false

namespace PipelineManifest.Yaml

/-! ### Scalars -/

theorem readBoolean_eq_ok {cs : List Char} {v : Value} (h : readBoolean cs = .ok v) :
    ∃ b, v = .bool b := by
  rw [readBoolean] at h
  split at h
  · cases h
    exact ⟨true, rfl⟩
  split at h
  · cases h
    exact ⟨false, rfl⟩
  · cases h

theorem readInteger_eq_ok {cs : List Char} {v : Value} (h : readInteger cs = .ok v) :
    ∃ i, v = .int i := by
  rw [readInteger] at h
  obtain ⟨_, _, h⟩ := Outcome.bind_eq_ok_iff.mp h
  obtain ⟨_, _, h⟩ := Outcome.bind_eq_ok_iff.mp h
  cases h
  exact ⟨_, rfl⟩

theorem readFloatNumber_eq_ok {cs : List Char} {v : Value} (h : readFloatNumber cs = .ok v) :
    ∃ x, v = .float x := by
  rw [readFloatNumber] at h
  obtain ⟨_, _, h⟩ := Outcome.bind_eq_ok_iff.mp h
  dsimp only at h
  split at h
  · cases h
    exact ⟨_, rfl⟩
  split at h
  · cases h
    exact ⟨_, rfl⟩
  split at h
  · obtain ⟨_, _, h⟩ := Outcome.bind_eq_ok_iff.mp h
    obtain ⟨_, _, h⟩ := Outcome.bind_eq_ok_iff.mp h
    cases h
    exact ⟨_, rfl⟩
  · obtain ⟨_, _, h⟩ := Outcome.bind_eq_ok_iff.mp h
    cases h
    exact ⟨_, rfl⟩

theorem readBinary_eq_ok {cs : List Char} {v : Value} (h : readBinary cs = .ok v) :
    ∃ octets, v = .bytes octets := by
  rw [readBinary] at h
  split at h
  · split at h
    · cases h
      exact ⟨_, rfl⟩
    · cases h
  · cases h

theorem readTime_eq_ok {cs : List Char} {v : Value} (h : readTime cs = .ok v) :
    (∃ d, v = .date d) ∨ ∃ t, v = .time t := by
  rw [readTime] at h
  split at h
  · split at h
    · split at h
      · cases h
        exact .inl ⟨_, rfl⟩
      · split at h
        · cases h
          exact .inr ⟨_, rfl⟩
        · cases h
    · cases h
  · cases h

/-- What a tag makes of a text is no container, and a text only where it is the tag of texts. -/
theorem read?_eq_ok {tag : Tag} {text : String} {v : Value}
    (h : tag.read? text = some (.ok v)) :
    v.isScalar = true ∧ ∀ s, v = .str s → tag = .text ∧ text = s := by
  cases tag with
  | null =>
    cases h
    exact ⟨rfl, fun s hs => by cases hs⟩
  | boolean =>
    obtain ⟨b, rfl⟩ := readBoolean_eq_ok (Option.some.inj h)
    exact ⟨rfl, fun s hs => by cases hs⟩
  | integer =>
    obtain ⟨i, rfl⟩ := readInteger_eq_ok (Option.some.inj h)
    exact ⟨rfl, fun s hs => by cases hs⟩
  | float =>
    obtain ⟨x, rfl⟩ := readFloatNumber_eq_ok (Option.some.inj h)
    exact ⟨rfl, fun s hs => by cases hs⟩
  | binary =>
    obtain ⟨octets, rfl⟩ := readBinary_eq_ok (Option.some.inj h)
    exact ⟨rfl, fun s hs => by cases hs⟩
  | timestamp =>
    rcases readTime_eq_ok (Option.some.inj h) with ⟨d, rfl⟩ | ⟨t, rfl⟩
    · exact ⟨rfl, fun s hs => by cases hs⟩
    · exact ⟨rfl, fun s hs => by cases hs⟩
  | text =>
    cases h
    exact ⟨rfl, fun s hs => ⟨rfl, Value.str.inj hs⟩⟩
  | _ => cases h

namespace Written

/-- Whether a scalar has the tag that it gets by itself. -/
def isUntagged (w : Written) : Bool := w.tag = .text || w.tag = Tag.ofPlain w.text

/-- Whether a scalar is a text that names a field. -/
def isField (w : Written) (name : String) : Bool := w.tag = .text && w.text = name

/-- What a scalar stands for is no container. -/
theorem isScalar_resolve (w : Written) : w.resolve.isScalar = true := by
  rw [resolve]
  split
  · rename_i v hv
    exact (read?_eq_ok hv).1
  · rfl

theorem isScalar_spell (w : Written) : w.spell.isScalar = true := by
  rw [spell]
  split <;> rfl

/-- What is written in a file can be written. -/
theorem isWritable_spell (w : Written) : w.spell.isWritable = true := by
  rw [spell]
  split <;> rfl

/-- A scalar stands for a text only if it is one. -/
theorem resolve_eq_str_iff {w : Written} {s : String} :
    w.resolve = .str s ↔ w.tag = .text ∧ w.text = s := by
  constructor
  · intro h
    rw [resolve] at h
    split at h
    · rename_i v hv
      exact (read?_eq_ok hv).2 s h
    · cases h
  · rintro ⟨htag, htext⟩
    rw [resolve, htag, htext]
    rfl

/-- A text is spelled as it is. -/
theorem spell_of_resolve_eq_str {w : Written} {s : String} (h : w.resolve = .str s) :
    w.spell = .str s := by
  obtain ⟨htag, htext⟩ := resolve_eq_str_iff.mp h
  rw [spell, htag, if_neg (by decide), htext]

/-- A field is found under its name by what its key stands for. -/
theorem sameKey_resolve (w : Written) (name : String) :
    Value.sameKey w.resolve (.str name) = w.isField name := by
  rw [Bool.eq_iff_iff, Value.sameKey_str_iff, resolve_eq_str_iff, isField, Bool.and_eq_true,
    decide_eq_true_eq, decide_eq_true_eq]

/-- A field is found under its name also by the spelling of its key, since the name has the form of
a text. -/
theorem sameKey_spell {w : Written} (hw : w.isUntagged = true) {name : String}
    (hname : Tag.ofPlain name = .text) :
    Value.sameKey w.spell (.str name) = w.isField name := by
  rw [Bool.eq_iff_iff, Value.sameKey_str_iff, spell, isField, Bool.and_eq_true,
    decide_eq_true_eq, decide_eq_true_eq]
  rw [isUntagged, Bool.or_eq_true, decide_eq_true_eq, decide_eq_true_eq] at hw
  constructor
  · intro h
    split at h
    · cases h
    · have htext : w.text = name := Value.str.inj h
      refine ⟨?_, htext⟩
      rcases hw with htag | htag
      · exact htag
      · rw [htag, htext, hname]
  · rintro ⟨htag, htext⟩
    rw [htag, if_neg (by decide), htext]

end Written

namespace Layout

/-! ### Taking parts out -/

mutual

/-- `ℓ`, standing `depth` levels below a container, with every reference to that container
replaced. `outer d` is what stands for the container `d` levels further down. -/
def detach (outer : Nat → Layout) (depth : Nat) : Layout → Layout
  | seq items => seq (detachItems outer (depth + 1) items)
  | map entries => map (detachEntries outer (depth + 1) entries)
  | back n => if n = depth then outer depth else back n
  | scalar w => scalar w

/-- `detach` on the items of a sequence. -/
def detachItems (outer : Nat → Layout) (depth : Nat) : List Layout → List Layout
  | [] => []
  | ℓ :: ℓs => detach outer depth ℓ :: detachItems outer depth ℓs

/-- `detach` on the entries of a mapping. -/
def detachEntries (outer : Nat → Layout) (depth : Nat) :
    List (Written × Layout) → List (Written × Layout)
  | [] => []
  | (w, ℓ) :: es => (w, detach outer depth ℓ) :: detachEntries outer depth es

end

/-- The value of an entry of a mapping, taken out. In what stands for the mapping the last entry of
the key holds a reference to the value. -/
def part (entries : List (Written × Layout)) (e : Written × Layout) : Layout :=
  detach (fun d => map (entries ++ [(e.1, back d)])) 0 e.2

/-- The field of a mapping with a text as its key: the last one that is written. -/
def field? (name : String) : Layout → Option Layout
  | map entries => (entries.reverse.find? fun e => e.1.isField name).map (part entries)
  | _ => none

/-- The items of a sequence, taken out; `before` are the items that come before the given ones. -/
def itemPartsFrom (before : List Layout) : List Layout → List Layout
  | [] => []
  | ℓ :: ℓs =>
    detach (fun d => seq (before ++ back d :: ℓs)) 0 ℓ :: itemPartsFrom (before ++ [ℓ]) ℓs

/-- The items of a sequence, taken out. -/
def itemParts (items : List Layout) : List Layout := itemPartsFrom [] items

/-! ### Parts of readings -/

section Read

variable {ρ : Written → Value}

mutual

/-- The reading of a part that is taken out is taken out of the reading. -/
theorem read_detach (hρ : ∀ w, (ρ w).isScalar = true) (outer : Nat → Layout) (depth : Nat)
    (ℓ : Layout) :
    (ℓ.detach outer depth).read ρ
      = Value.detach (fun d => (outer d).read ρ) depth (ℓ.read ρ) := by
  cases ℓ with
  | scalar w =>
    rw [detach, read, Value.detach_of_isTree _ _ _ (Value.isTree_of_isScalar (hρ w))]
  | seq items => rw [detach, read, read, Value.detach, readItems_detachItems hρ outer _ items]
  | map entries =>
    rw [detach, read, read, Value.detach, readEntries_detachEntries hρ outer _ entries,
      Value.ofEntries_detachEntries]
  | back n =>
    rw [detach, read, Value.detach]
    split <;> rfl

theorem readItems_detachItems (hρ : ∀ w, (ρ w).isScalar = true) (outer : Nat → Layout)
    (depth : Nat) (ℓs : List Layout) :
    readItems ρ (detachItems outer depth ℓs)
      = Value.detachItems (fun d => (outer d).read ρ) depth (readItems ρ ℓs) := by
  cases ℓs with
  | nil => rfl
  | cons ℓ ℓs =>
    rw [detachItems, readItems, readItems, Value.detachItems, read_detach hρ outer depth ℓ,
      readItems_detachItems hρ outer depth ℓs]

theorem readEntries_detachEntries (hρ : ∀ w, (ρ w).isScalar = true) (outer : Nat → Layout)
    (depth : Nat) (es : List (Written × Layout)) :
    readEntries ρ (detachEntries outer depth es)
      = Value.detachEntries (fun d => (outer d).read ρ) depth (readEntries ρ es) := by
  cases es with
  | nil => rfl
  | cons e es =>
    obtain ⟨w, ℓ⟩ := e
    rw [detachEntries, readEntries, readEntries, Value.detachEntries, read_detach hρ outer depth ℓ,
      readEntries_detachEntries hρ outer depth es]

end

/-- What stands for a mapping in one of its values that is taken out. -/
theorem read_map_concat (entries : List (Written × Layout)) (w : Written) (d : Nat) :
    (map (entries ++ [(w, back d)])).read ρ
      = .map (Value.insertEntry (ρ w) (.back d) (Value.ofEntries (readEntries ρ entries))) := by
  have hconcat : readEntries ρ (entries ++ [(w, back d)])
      = readEntries ρ entries ++ [(ρ w, .back d)] := by
    rw [readEntries_eq_map, readEntries_eq_map, List.map_append]
    rfl
  rw [read, hconcat, Value.ofEntries_concat]

theorem read_part (hρ : ∀ w, (ρ w).isScalar = true) (entries : List (Written × Layout))
    (e : Written × Layout) :
    (part entries e).read ρ = Value.detach (fun d => .map (Value.insertEntry (ρ e.1) (.back d)
      (Value.ofEntries (readEntries ρ entries)))) 0 (e.2.read ρ) := by
  rw [part, read_detach hρ]
  simp only [read_map_concat]

/-- The fields of a reading are the readings of the fields. -/
theorem field?_read (hρ : ∀ w, (ρ w).isScalar = true) {name : String}
    {entries : List (Written × Layout)}
    (hname : ∀ e ∈ entries, Value.sameKey (ρ e.1) (.str name) = e.1.isField name) :
    Value.field? name (Value.ofEntries (readEntries ρ entries))
      = ((map entries).field? name).map (read ρ) := by
  rw [Value.field?_eq_map_lookup?, Value.lookup?_ofEntries_str, field?, Option.map_map,
    Option.map_map]
  have hfind : ((readEntries ρ entries).reverse.find? fun e => Value.sameKey e.1 (.str name))
      = (entries.reverse.find? fun e => e.1.isField name).map fun e => (ρ e.1, e.2.read ρ) := by
    rw [readEntries_eq_map, ← List.map_reverse, List.find?_map]
    refine congrArg (Option.map _) (List.find?_congr fun e he => ?_)
    exact hname e (List.mem_reverse.mp he)
  rw [hfind, Option.map_map]
  cases hfound : entries.reverse.find? fun e => e.1.isField name with
  | none => rfl
  | some e =>
    have he : e ∈ entries := List.mem_reverse.mp (List.mem_of_find?_eq_some hfound)
    have hkey : ρ e.1 = .str name := by
      rw [← Value.sameKey_str_iff, hname e he]
      simpa using List.find?_some hfound
    simp only [Option.map_some, Function.comp_apply, read_part hρ, hkey]

/-- The entries of a reading are the readings of the entries. The last of the entries with a key is
left; what stands in it for the mapping is the same whichever of their keys is asked for. -/
theorem entries_read (hρ : ∀ w, (ρ w).isScalar = true) (entries : List (Written × Layout)) :
    Value.entries (Value.ofEntries (readEntries ρ entries))
      = Value.ofEntries (entries.map fun e => (ρ e.1, (part entries e).read ρ)) := by
  have hself : ∀ e ∈ entries, Value.sameKey (ρ e.1) (ρ e.1) = true := fun e _ =>
    Value.sameKey_self (hρ e.1)
  have hkept := Value.ofEntries_eq_map_kept (fun e : Written × Layout => ρ e.1)
    (fun e => e.2.read ρ) entries
  rw [← readEntries_eq_map] at hkept
  rw [Value.ofEntries_eq_map_kept (fun e : Written × Layout => ρ e.1),
    Value.entries_eq_map (fun p => ρ p.2.1)
      ((Value.pairwise_kept entries).imp fun h => h.2) (Value.same_of_mem_kept hself) hkept]
  simp only [read_part hρ]

/-- The items of a reading are the readings of the items. -/
theorem items_read (hρ : ∀ w, (ρ w).isScalar = true) (ℓs : List Layout) :
    Value.items (readItems ρ ℓs) = (itemParts ℓs).map (read ρ) := by
  have hfrom : ∀ before, Value.detachedItems .seq (before.map (read ρ)) (readItems ρ ℓs)
      = (itemPartsFrom before ℓs).map (read ρ) := by
    induction ℓs with
    | nil => exact fun _ => rfl
    | cons ℓ ℓs ih =>
      intro before
      have hnext := ih (before ++ [ℓ])
      rw [List.map_append, List.map_cons, List.map_nil] at hnext
      rw [readItems, Value.detachedItems, itemPartsFrom, List.map_cons, hnext, read_detach hρ]
      simp only [read, readItems_eq_map, List.map_append, List.map_cons]
  exact hfrom []

mutual

/-- A reading is a value of a document. -/
theorem isWellFormed_read (hρ : ∀ w, (ρ w).isScalar = true) (ℓ : Layout) :
    (ℓ.read ρ).isWellFormed = true := by
  cases ℓ with
  | scalar w =>
    rw [read]
    have hw := hρ w
    cases hv : ρ w <;> first | rfl | (rw [hv] at hw; cases hw)
  | seq items =>
    rw [read, Value.isWellFormed, Value.areWellFormed_iff]
    exact isWellFormed_readItems hρ items
  | map entries =>
    rw [read, Value.isWellFormed_map_iff]
    refine ⟨Value.areDistinct_keys_ofEntries _, fun e he => ?_⟩
    obtain ⟨⟨f, hf, hkey⟩, f', hf', hvalue⟩ := Value.mem_of_mem_ofEntries he
    rw [← hkey, ← hvalue]
    exact ⟨(isWellFormed_readEntries hρ entries f hf).1,
      (isWellFormed_readEntries hρ entries f' hf').2⟩
  | back n => rfl

theorem isWellFormed_readItems (hρ : ∀ w, (ρ w).isScalar = true) (ℓs : List Layout) :
    ∀ v ∈ readItems ρ ℓs, v.isWellFormed = true := by
  cases ℓs with
  | nil => simp [readItems]
  | cons ℓ ℓs =>
    rw [readItems]
    exact List.forall_mem_cons.mpr ⟨isWellFormed_read hρ ℓ, isWellFormed_readItems hρ ℓs⟩

theorem isWellFormed_readEntries (hρ : ∀ w, (ρ w).isScalar = true)
    (es : List (Written × Layout)) :
    ∀ e ∈ readEntries ρ es, e.1.isScalar = true ∧ e.2.isWellFormed = true := by
  cases es with
  | nil => simp [readEntries]
  | cons e es =>
    obtain ⟨w, ℓ⟩ := e
    rw [readEntries]
    exact List.forall_mem_cons.mpr
      ⟨⟨hρ w, isWellFormed_read hρ ℓ⟩, isWellFormed_readEntries hρ es⟩

end

mutual

/-- A reading can be written, if its scalars can. -/
theorem isWritable_read (hρ : ∀ w, (ρ w).isWritable = true) (ℓ : Layout) :
    (ℓ.read ρ).isWritable = true := by
  cases ℓ with
  | scalar w => exact hρ w
  | seq items =>
    rw [read, Value.isWritable, Value.areWritable_iff]
    exact isWritable_readItems hρ items
  | map entries =>
    rw [read, Value.isWritable, Value.areWritableEntries_iff]
    intro e he
    obtain ⟨⟨f, hf, hkey⟩, f', hf', hvalue⟩ := Value.mem_of_mem_ofEntries he
    rw [← hkey, ← hvalue]
    exact ⟨(isWritable_readEntries hρ entries f hf).1,
      (isWritable_readEntries hρ entries f' hf').2⟩
  | back n => rfl

theorem isWritable_readItems (hρ : ∀ w, (ρ w).isWritable = true) (ℓs : List Layout) :
    ∀ v ∈ readItems ρ ℓs, v.isWritable = true := by
  cases ℓs with
  | nil => simp [readItems]
  | cons ℓ ℓs =>
    rw [readItems]
    exact List.forall_mem_cons.mpr ⟨isWritable_read hρ ℓ, isWritable_readItems hρ ℓs⟩

theorem isWritable_readEntries (hρ : ∀ w, (ρ w).isWritable = true)
    (es : List (Written × Layout)) :
    ∀ e ∈ readEntries ρ es, e.1.isWritable = true ∧ e.2.isWritable = true := by
  cases es with
  | nil => simp [readEntries]
  | cons e es =>
    obtain ⟨w, ℓ⟩ := e
    rw [readEntries]
    exact List.forall_mem_cons.mpr
      ⟨⟨hρ w, isWritable_read hρ ℓ⟩, isWritable_readEntries hρ es⟩

end

end Read

/-- A source can be written. -/
theorem isWritable_source (ℓ : Layout) : ℓ.source.isWritable = true :=
  isWritable_read Written.isWritable_spell ℓ

/-! ### Sound layouts -/

mutual

/-- Whether all scalars of a layout that stands inside `depth` containers have the tags that they
get by themselves, and every reference leads to one of the containers. -/
def isSound (depth : Nat) : Layout → Bool
  | scalar w => w.isUntagged
  | seq items => areSound (depth + 1) items
  | map entries => areSoundEntries (depth + 1) entries
  | back n => n < depth

/-- `isSound` on the items of a sequence. -/
def areSound (depth : Nat) : List Layout → Bool
  | [] => true
  | ℓ :: ℓs => isSound depth ℓ && areSound depth ℓs

/-- `isSound` on the entries of a mapping. -/
def areSoundEntries (depth : Nat) : List (Written × Layout) → Bool
  | [] => true
  | (w, ℓ) :: es => w.isUntagged && isSound depth ℓ && areSoundEntries depth es

end

theorem areSound_iff {depth : Nat} {ℓs : List Layout} :
    areSound depth ℓs = true ↔ ∀ ℓ ∈ ℓs, ℓ.isSound depth = true := by
  induction ℓs with
  | nil => simp [areSound]
  | cons ℓ ℓs ih => simp [areSound, ih]

theorem areSoundEntries_iff {depth : Nat} {es : List (Written × Layout)} :
    areSoundEntries depth es = true
      ↔ ∀ e ∈ es, e.1.isUntagged = true ∧ e.2.isSound depth = true := by
  induction es with
  | nil => simp [areSoundEntries]
  | cons e es ih =>
    obtain ⟨w, ℓ⟩ := e
    simp [areSoundEntries, ih, and_assoc]

theorem isSound_seq_iff {depth : Nat} {ℓs : List Layout} :
    (seq ℓs).isSound depth = true ↔ ∀ ℓ ∈ ℓs, ℓ.isSound (depth + 1) = true := by
  rw [isSound, areSound_iff]

theorem isSound_map_iff {depth : Nat} {es : List (Written × Layout)} :
    (map es).isSound depth = true
      ↔ ∀ e ∈ es, e.1.isUntagged = true ∧ e.2.isSound (depth + 1) = true := by
  rw [isSound, areSoundEntries_iff]

mutual

/-- What is sound stays sound inside more containers. -/
theorem isSound_of_le {depth depth' : Nat} (hle : depth ≤ depth') (ℓ : Layout)
    (h : ℓ.isSound depth = true) : ℓ.isSound depth' = true := by
  cases ℓ with
  | scalar w => exact h
  | seq items =>
    rw [isSound] at h ⊢
    exact areSound_of_le (Nat.succ_le_succ hle) items h
  | map entries =>
    rw [isSound] at h ⊢
    exact areSoundEntries_of_le (Nat.succ_le_succ hle) entries h
  | back n =>
    rw [isSound, decide_eq_true_eq] at h ⊢
    omega

theorem areSound_of_le {depth depth' : Nat} (hle : depth ≤ depth') (ℓs : List Layout)
    (h : areSound depth ℓs = true) : areSound depth' ℓs = true := by
  cases ℓs with
  | nil => rfl
  | cons ℓ ℓs =>
    rw [areSound, Bool.and_eq_true] at h ⊢
    exact ⟨isSound_of_le hle ℓ h.1, areSound_of_le hle ℓs h.2⟩

theorem areSoundEntries_of_le {depth depth' : Nat} (hle : depth ≤ depth')
    (es : List (Written × Layout)) (h : areSoundEntries depth es = true) :
    areSoundEntries depth' es = true := by
  cases es with
  | nil => rfl
  | cons e es =>
    obtain ⟨w, ℓ⟩ := e
    rw [areSoundEntries, Bool.and_eq_true, Bool.and_eq_true] at h ⊢
    exact ⟨⟨h.1.1, isSound_of_le hle ℓ h.1.2⟩, areSoundEntries_of_le hle es h.2⟩

end

mutual

/-- A part that is taken out of a container is sound without it, if what stands for the container
is. -/
theorem isSound_detach {outer : Nat → Layout} (houter : ∀ d, (outer d).isSound d = true)
    (depth : Nat) (ℓ : Layout) (h : ℓ.isSound (depth + 1) = true) :
    (ℓ.detach outer depth).isSound depth = true := by
  cases ℓ with
  | scalar w => exact h
  | seq items =>
    rw [isSound] at h
    rw [detach, isSound]
    exact areSound_detachItems houter _ items h
  | map entries =>
    rw [isSound] at h
    rw [detach, isSound]
    exact areSoundEntries_detachEntries houter _ entries h
  | back n =>
    rw [isSound, decide_eq_true_eq] at h
    rw [detach]
    split
    · exact houter depth
    · rw [isSound, decide_eq_true_eq]
      omega

theorem areSound_detachItems {outer : Nat → Layout} (houter : ∀ d, (outer d).isSound d = true)
    (depth : Nat) (ℓs : List Layout) (h : areSound (depth + 1) ℓs = true) :
    areSound depth (detachItems outer depth ℓs) = true := by
  cases ℓs with
  | nil => rfl
  | cons ℓ ℓs =>
    rw [areSound, Bool.and_eq_true] at h
    rw [detachItems, areSound, Bool.and_eq_true]
    exact ⟨isSound_detach houter depth ℓ h.1, areSound_detachItems houter depth ℓs h.2⟩

theorem areSoundEntries_detachEntries {outer : Nat → Layout}
    (houter : ∀ d, (outer d).isSound d = true) (depth : Nat) (es : List (Written × Layout))
    (h : areSoundEntries (depth + 1) es = true) :
    areSoundEntries depth (detachEntries outer depth es) = true := by
  cases es with
  | nil => rfl
  | cons e es =>
    obtain ⟨w, ℓ⟩ := e
    rw [areSoundEntries, Bool.and_eq_true, Bool.and_eq_true] at h
    rw [detachEntries, areSoundEntries, Bool.and_eq_true, Bool.and_eq_true]
    exact ⟨⟨h.1.1, isSound_detach houter depth ℓ h.1.2⟩,
      areSoundEntries_detachEntries houter depth es h.2⟩

end

mutual

/-- There is nothing to replace in what is sound without the container. -/
theorem detach_of_isSound (outer : Nat → Layout) (depth : Nat) (ℓ : Layout)
    (h : ℓ.isSound depth = true) : ℓ.detach outer depth = ℓ := by
  cases ℓ with
  | scalar w => rfl
  | seq items =>
    rw [isSound] at h
    rw [detach, detachItems_of_areSound outer _ items h]
  | map entries =>
    rw [isSound] at h
    rw [detach, detachEntries_of_areSoundEntries outer _ entries h]
  | back n =>
    rw [isSound, decide_eq_true_eq] at h
    rw [detach, if_neg (by omega)]

theorem detachItems_of_areSound (outer : Nat → Layout) (depth : Nat) (ℓs : List Layout)
    (h : areSound depth ℓs = true) : detachItems outer depth ℓs = ℓs := by
  cases ℓs with
  | nil => rfl
  | cons ℓ ℓs =>
    rw [areSound, Bool.and_eq_true] at h
    rw [detachItems, detach_of_isSound outer depth ℓ h.1,
      detachItems_of_areSound outer depth ℓs h.2]

theorem detachEntries_of_areSoundEntries (outer : Nat → Layout) (depth : Nat)
    (es : List (Written × Layout)) (h : areSoundEntries depth es = true) :
    detachEntries outer depth es = es := by
  cases es with
  | nil => rfl
  | cons e es =>
    obtain ⟨w, ℓ⟩ := e
    rw [areSoundEntries, Bool.and_eq_true, Bool.and_eq_true] at h
    rw [detachEntries, detach_of_isSound outer depth ℓ h.1.2,
      detachEntries_of_areSoundEntries outer depth es h.2]

end

/-- The parts of a sound mapping are sound. -/
theorem isSound_part {entries : List (Written × Layout)} (h : (map entries).isSound 0 = true)
    {e : Written × Layout} (he : e ∈ entries) : (part entries e).isSound 0 = true := by
  rw [isSound_map_iff] at h
  refine isSound_detach (fun d => ?_) 0 e.2 (h e he).2
  rw [isSound_map_iff]
  intro f hf
  rcases List.mem_append.mp hf with hf | hf
  · exact ⟨(h f hf).1, isSound_of_le (by omega) f.2 (h f hf).2⟩
  · rw [List.mem_singleton.mp hf]
    exact ⟨(h e he).1, by simp [isSound]⟩

/-- In a mapping whose values are sound without it, the values are their own parts. -/
theorem part_of_isSound (entries : List (Written × Layout)) {e : Written × Layout}
    (he : e.2.isSound 0 = true) : part entries e = e.2 :=
  detach_of_isSound _ 0 e.2 he

theorem isSound_of_field? {ℓ : Layout} (h : ℓ.isSound 0 = true) {name : String} {p : Layout}
    (hp : ℓ.field? name = some p) : p.isSound 0 = true := by
  cases ℓ with
  | map entries =>
    obtain ⟨e, he, rfl⟩ := Option.map_eq_some_iff.mp hp
    exact isSound_part h (List.mem_reverse.mp (List.mem_of_find?_eq_some he))
  | _ => cases hp

/-- The items of a sound sequence are sound. -/
theorem isSound_of_mem_itemParts {ℓs : List Layout} (h : (seq ℓs).isSound 0 = true) :
    ∀ p ∈ itemParts ℓs, p.isSound 0 = true := by
  rw [isSound_seq_iff] at h
  have hfrom : ∀ (rest before : List Layout), ℓs = before ++ rest →
      ∀ p ∈ itemPartsFrom before rest, p.isSound 0 = true := by
    intro rest
    induction rest with
    | nil => simp [itemPartsFrom]
    | cons ℓ rest ih =>
      intro before heq p hp
      rcases List.mem_cons.mp hp with rfl | hp
      · refine isSound_detach (fun d => ?_) 0 ℓ (h ℓ (by rw [heq]; simp))
        rw [isSound_seq_iff]
        intro m hm
        rcases List.mem_append.mp hm with hm | hm
        · exact isSound_of_le (by omega) m (h m (by rw [heq]; exact List.mem_append_left _ hm))
        · rcases List.mem_cons.mp hm with rfl | hm
          · simp [isSound]
          · exact isSound_of_le (by omega) m
              (h m (by rw [heq]; exact List.mem_append_right _ (List.mem_cons_of_mem _ hm)))
      · exact ih (before ++ [ℓ]) (by rw [heq]; simp) p hp
  exact hfrom ℓs [] rfl

/-- In a sequence whose items are sound without it, the items are their own parts. -/
theorem itemParts_of_isSound {ℓs : List Layout} (h : ∀ ℓ ∈ ℓs, ℓ.isSound 0 = true) :
    itemParts ℓs = ℓs := by
  have hfrom : ∀ before, itemPartsFrom before ℓs = ℓs := by
    induction ℓs with
    | nil => exact fun _ => rfl
    | cons ℓ ℓs ih =>
      intro before
      rw [itemPartsFrom, detach_of_isSound _ 0 ℓ (h ℓ List.mem_cons_self),
        ih fun m hm => h m (List.mem_cons_of_mem _ hm)]
  exact hfrom []

end Layout

namespace Graph

theorem IsUntagged.isUntagged_written {g : Graph} (hg : g.IsUntagged) (id : NodeId) :
    (g.written id).isUntagged = true := by
  have hid := hg id
  rw [written]
  split
  · rename_i tag text hn
    rw [hn] at hid
    rw [Written.isUntagged, Bool.or_eq_true, decide_eq_true_eq, decide_eq_true_eq]
    exact hid
  · decide

/-- The layout of a document without explicit tags is sound. -/
theorem isSound_layoutFrom {g : Graph} (hg : g.IsUntagged) (fuel : Nat) (path : List NodeId)
    (id : NodeId) : (g.layoutFrom fuel path id).isSound path.length = true := by
  induction fuel generalizing path id with
  | zero =>
    rw [layoutFrom.eq_def]
    cases hn : g.node id with
    | scalar tag text =>
      have hwritten := hg.isUntagged_written id
      rwa [written, hn] at hwritten
    | sequence tag items => rfl
    | mapping tag es => rfl
  | succ fuel ih =>
    by_cases hscalar : ∃ tag text, g.node id = .scalar tag text
    · obtain ⟨tag, text, hn⟩ := hscalar
      have hwritten := hg.isUntagged_written id
      rw [written, hn] at hwritten
      rw [layoutFrom_of_scalar hn, Layout.isSound]
      exact hwritten
    · have hnot : ∀ tag text, g.node id ≠ .scalar tag text := fun tag text hn =>
        hscalar ⟨tag, text, hn⟩
      cases hpath : path.idxOf? id with
      | some levels =>
        -- A reference goes to a container that is on the path, so no further up than the root.
        obtain ⟨hlt, -⟩ := List.idxOf?_eq_some_iff.mp hpath
        rw [layoutFrom_of_back hnot hpath, Layout.isSound, decide_eq_true_eq]
        exact hlt
      | none =>
        cases hn : g.node id with
        | scalar tag text => exact absurd hn (hnot tag text)
        | sequence tag items =>
          rw [layoutFrom_of_sequence hn hpath, Layout.isSound_seq_iff]
          intro ℓ hℓ
          obtain ⟨x, -, rfl⟩ := List.mem_map.mp hℓ
          exact ih (id :: path) x
        | mapping tag es =>
          rw [layoutFrom_of_mapping hn hpath, Layout.isSound_map_iff]
          intro f hf
          obtain ⟨e, -, rfl⟩ := List.mem_map.mp hf
          exact ⟨hg.isUntagged_written e.1, ih (id :: path) e.2⟩

end Graph

end PipelineManifest.Yaml
