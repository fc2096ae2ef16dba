import PipelineManifest.Proofs.Yaml.Parts
import PipelineManifest.Yaml.Stream

/-!
# `PipelineManifest.Proofs.Yaml.Sourced`: data and source are two readings of one layout

The data of a document is read from a graph whose merge entries are replaced on the way, and the
source from the graph that is left in the end. Without explicit tags both see the same containers
with the same scalars in the same places.

* `Graph.slot_eq_ok`, `Graph.shape_eq_ok`: without explicit tags a container holds what its layout
  says.
* `Graph.sourced_eq_read`: data and source are the two readings of the layout.
-/

set_option autoImplicit false

namespace PipelineManifest.Yaml.Graph

/-! ### The data of single containers -/

/-- The value of a scalar is what its tag makes of its text. -/
theorem scalarValue_of_scalar {g : Graph} {id : NodeId} {tag : Tag} {text : String}
    (h : g.node id = .scalar tag text) :
    g.scalarValue id = (tag.read? text).getD (.error .rejected) := by
  have htag : g.tag id = tag := by rw [Graph.tag, h, Node.tag]
  have htext : g.scalarText (g.size + 1) id = .ok text := by rw [scalarText, h]
  rw [scalarValue, htext, h, htag]
  dsimp only [bind, Except.bind]
  cases tag.read? text <;> rfl

/-- Without explicit tags a container stands for itself in a place, and a scalar for what its tag
makes of its text. -/
theorem slot_of_scalar {g : Graph} (hg : g.IsUntagged) {id : NodeId} {tag : Tag} {text : String}
    (h : g.node id = .scalar tag text) :
    g.slot id = ((tag.read? text).getD (.error .rejected)).map .leaf := by
  have hid := hg id
  rw [h] at hid
  have htag : g.tag id = tag := by rw [Graph.tag, h, Node.tag]
  rw [slot, htag, Node.isContainerTag_of_isUntagged hid, scalarValue_of_scalar h]
  rfl

theorem slot_of_not_scalar {g : Graph} (hg : g.IsUntagged) {id : NodeId}
    (h : ∀ tag text, g.node id ≠ .scalar tag text) : g.slot id = .ok (.node id) := by
  have hid := hg id
  rw [slot, Graph.tag]
  cases hn : g.node id with
  | scalar tag text => exact absurd hn (h tag text)
  | sequence tag items =>
    rw [hn] at hid
    rw [Node.tag, show tag = .sequence from hid]
    rfl
  | mapping tag es =>
    rw [hn] at hid
    rw [Node.tag, show tag = .mapping from hid]
    rfl

/-- A node that stands for something in a place is no mark, and what it stands for is the reading of
its layout. -/
theorem slot_eq_ok {g : Graph} (hg : g.IsUntagged) {id : NodeId} {s : Slot}
    (h : g.slot id = .ok s) :
    s = slotBy Written.resolve g id ∧ g.tag id ≠ .merge ∧ g.tag id ≠ .default := by
  by_cases hscalar : ∃ tag text, g.node id = .scalar tag text
  · obtain ⟨tag, text, hn⟩ := hscalar
    have htag : g.tag id = tag := by rw [Graph.tag, hn, Node.tag]
    rw [slot_of_scalar hg hn] at h
    rw [slotBy_of_scalar hn, htag, Written.resolve]
    cases hread : tag.read? text with
    | none =>
      rw [hread] at h
      cases h
    | some r =>
      rw [hread] at h
      cases r with
      | error d => cases h
      -- By a mark nothing is read at all.
      | ok v =>
        cases h
        refine ⟨rfl, ?_, ?_⟩
        · rintro rfl
          cases hread
        · rintro rfl
          cases hread
  · have hn : ∀ tag text, g.node id ≠ .scalar tag text := fun tag text hn =>
      hscalar ⟨tag, text, hn⟩
    rw [slot_of_not_scalar hg hn] at h
    cases h
    rw [slotBy_of_not_scalar hn]
    refine ⟨rfl, fun hmerge => ?_, fun hdefault => ?_⟩
    · obtain ⟨text, hn'⟩ := hg.node_of_mark (.inl hmerge)
      exact hn _ _ hn'
    · obtain ⟨text, hn'⟩ := hg.node_of_mark (.inr hdefault)
      exact hn _ _ hn'

theorem shape_of_scalar {g : Graph} {id : NodeId} {tag : Tag} {text : String}
    (h : g.node id = .scalar tag text) : g.shape id = .error .rejected := by
  rw [shape, Graph.tag, h, Node.tag]
  cases tag <;> rfl

theorem shape_of_sequence {g : Graph} (hg : g.IsUntagged) {id : NodeId} {tag : Tag}
    {items : List NodeId} (h : g.node id = .sequence tag items) :
    g.shape id = do return .seq (← items.mapM g.slot) := by
  have hid := hg id
  rw [h] at hid
  rw [shape, Graph.tag, h, Node.tag, show tag = .sequence from hid]

theorem shape_of_mapping {g : Graph} (hg : g.IsUntagged) {id : NodeId} {tag : Tag}
    {es : List (NodeId × NodeId)} (h : g.node id = .mapping tag es) :
    g.shape id = do return .map (← es.mapM g.entrySlot) := by
  have hid := hg id
  rw [h] at hid
  rw [shape, Graph.tag, h, Node.tag, show tag = .mapping from hid]

/-- The key of an entry that is read is a scalar and no mark. -/
theorem entrySlot_eq_ok {g : Graph} (hg : g.IsUntagged) {e : NodeId × NodeId} {p : Value × Slot}
    (h : g.entrySlot e = .ok p) :
    p = ((g.written e.1).resolve, slotBy Written.resolve g e.2) ∧
      g.tag e.1 ≠ .merge ∧ g.tag e.1 ≠ .default := by
  rw [entrySlot] at h
  obtain ⟨s, hs, h⟩ := Outcome.bind_eq_ok_iff.mp h
  -- The mark is told by the key as a slot, and its value by the key as it is written.
  obtain ⟨hkey, hmark⟩ := slot_eq_ok hg hs
  cases s with
  | node x => cases h
  | leaf key =>
    obtain ⟨t, ht, h⟩ := Outcome.bind_eq_ok_iff.mp h
    cases h
    rw [(slot_eq_ok hg ht).1]
    refine ⟨?_, hmark⟩
    rw [slotBy] at hkey
    split at hkey
    · rename_i hn
      cases hkey
      rw [written, hn]
    · cases hkey

/-- Of a mapping that has been read all entries have been. -/
theorem exists_entrySlot {g : Graph} (hg : g.IsUntagged) {id : NodeId} {tag : Tag}
    {es : List (NodeId × NodeId)} (hn : g.node id = .mapping tag es) {s : Shape}
    (h : g.shape id = .ok s) : ∀ e ∈ es, ∃ p, g.entrySlot e = .ok p := by
  rw [shape_of_mapping hg hn] at h
  obtain ⟨entries, hentries, -⟩ := Outcome.bind_eq_ok_iff.mp h
  exact Outcome.exists_of_mapM_eq_ok hentries

/-- What is read of a container is what its layout says, and none of its keys is a merge mark. -/
theorem shape_eq_ok {g : Graph} (hg : g.IsUntagged) {id : NodeId} {s : Shape}
    (h : g.shape id = .ok s) :
    s = shapeBy Written.resolve g id ∧ (g.isMapping id = true → g.IsSettled id) := by
  cases hn : g.node id with
  | scalar tag text =>
    rw [shape_of_scalar hn] at h
    cases h
  | sequence tag items =>
    rw [shape_of_sequence hg hn] at h
    obtain ⟨slots, hslots, h⟩ := Outcome.bind_eq_ok_iff.mp h
    cases h
    rw [shapeBy, hn, Outcome.eq_map_of_mapM_eq_ok (fun x _ y hy => (slot_eq_ok hg hy).1) hslots]
    refine ⟨rfl, fun hmapping => ?_⟩
    rw [isMapping, hn] at hmapping
    cases hmapping
  | mapping tag es =>
    rw [shape_of_mapping hg hn] at h
    obtain ⟨entries, hentries, h⟩ := Outcome.bind_eq_ok_iff.mp h
    cases h
    rw [shapeBy, hn,
      Outcome.eq_map_of_mapM_eq_ok (fun x _ y hy => (entrySlot_eq_ok hg hy).1) hentries]
    refine ⟨rfl, fun hmapping => ⟨hmapping, fun e he => ?_⟩⟩
    rw [Graph.entries, hn] at he
    obtain ⟨p, hp⟩ := Outcome.exists_of_mapM_eq_ok hentries e he
    exact (entrySlot_eq_ok hg hp).2.1

/-! ### What has been read stays true -/

theorem slot_eq_ok_of_flattensTo {g g' : Graph} (hg : g.IsUntagged) (h : FlattensTo none g g')
    {id : NodeId} {s : Slot} (hs : g.slot id = .ok s) : g'.slot id = .ok s := by
  have hg' := h.isUntagged hg
  have hrefines := h.refines id
  by_cases hscalar : ∃ tag text, g.node id = .scalar tag text
  -- A scalar that has been read was no default mark, and others do not change.
  · obtain ⟨tag, text, hn⟩ := hscalar
    have htag : g.tag id = tag := by rw [Graph.tag, hn, Node.tag]
    have hmark := (slot_eq_ok hg hs).2.2
    rw [htag] at hmark
    rw [hn] at hrefines
    rw [slot_of_scalar hg' (hrefines.scalar_eq hmark), ← slot_of_scalar hg hn]
    exact hs
  · have hn : ∀ tag text, g.node id ≠ .scalar tag text := fun tag text hn =>
      hscalar ⟨tag, text, hn⟩
    rw [slot_of_not_scalar hg' (hrefines.ne_scalar hn), ← slot_of_not_scalar hg hn]
    exact hs

theorem entrySlot_eq_ok_of_flattensTo {g g' : Graph} (hg : g.IsUntagged)
    (h : FlattensTo none g g') {e : NodeId × NodeId} {p : Value × Slot}
    (hp : g.entrySlot e = .ok p) : g'.entrySlot e = .ok p := by
  rw [entrySlot] at hp ⊢
  obtain ⟨s, hs, hp⟩ := Outcome.bind_eq_ok_iff.mp hp
  refine Outcome.bind_eq_ok_iff.mpr ⟨s, slot_eq_ok_of_flattensTo hg h hs, ?_⟩
  cases s with
  | node x => cases hp
  | leaf key =>
    obtain ⟨t, ht, hp⟩ := Outcome.bind_eq_ok_iff.mp hp
    exact Outcome.bind_eq_ok_iff.mpr ⟨t, slot_eq_ok_of_flattensTo hg h ht, hp⟩

/-- A container that has been read is read in the same way later. A mapping that has been read is
settled, so its entries stay as they are. -/
theorem shape_eq_ok_of_flattensTo {g g' : Graph} (hg : g.IsUntagged) (h : FlattensTo none g g')
    {id : NodeId} {s : Shape} (hs : g.shape id = .ok s) : g'.shape id = .ok s := by
  have hg' := h.isUntagged hg
  cases hn : g.node id with
  | scalar tag text =>
    rw [shape_of_scalar hn] at hs
    cases hs
  | sequence tag items =>
    have htag : tag = .sequence := by
      have hid := hg id
      rwa [hn] at hid
    have hn' : g'.node id = .sequence tag items :=
      (hn ▸ h.refines id).sequence_eq (by simp [htag])
    rw [shape_of_sequence hg hn] at hs
    obtain ⟨slots, hslots, hs⟩ := Outcome.bind_eq_ok_iff.mp hs
    rw [shape_of_sequence hg' hn']
    refine Outcome.bind_eq_ok_iff.mpr ⟨slots, ?_, hs⟩
    exact Outcome.mapM_eq_ok_of_forall
      (fun x _ y hy => slot_eq_ok_of_flattensTo hg h hy) hslots
  | mapping tag es =>
    have hsettled := (shape_eq_ok hg hs).2 (by rw [isMapping, hn])
    have htag : g.tag id = .mapping := by
      have hid := hg id
      rw [hn] at hid
      rwa [Graph.tag, hn, Node.tag]
    have hn' : g'.node id = .mapping tag es :=
      (h.node_eq hsettled (by simp) (by simp [htag])).trans hn
    rw [shape_of_mapping hg hn] at hs
    obtain ⟨entries, hentries, hs⟩ := Outcome.bind_eq_ok_iff.mp hs
    rw [shape_of_mapping hg' hn']
    refine Outcome.bind_eq_ok_iff.mpr ⟨entries, ?_, hs⟩
    exact Outcome.mapM_eq_ok_of_forall
      (fun x _ y hy => entrySlot_eq_ok_of_flattensTo hg h hy) hentries

/-! ### Both searches -/

/-- A container is read when its merge entries have been replaced. -/
theorem expand_eq_ok {g g' : Graph} {id : NodeId} {s : Shape}
    (h : g.expand id = .ok (g', s)) : FlattensTo none g g' ∧ g'.shape id = .ok s := by
  rw [expand] at h
  split at h
  · obtain ⟨g₁, hflat, h⟩ := Outcome.bind_eq_ok_iff.mp h
    obtain ⟨t, hshape, h⟩ := Outcome.bind_eq_ok_iff.mp h
    cases h
    exact ⟨flattensTo_flatten hflat, hshape⟩
  · obtain ⟨g₁, hsame, h⟩ := Outcome.bind_eq_ok_iff.mp h
    obtain ⟨t, hshape, h⟩ := Outcome.bind_eq_ok_iff.mp h
    cases hsame
    cases h
    exact ⟨.refl g, hshape⟩

/-- The containers of the data are read while merge entries are replaced. -/
theorem expansion_expand :
    Heap.Expansion expand IsUntagged (FlattensTo none) fun g id s => g.shape id = .ok s where
  step g id g' s hg h := by
    obtain ⟨hlater, hshape⟩ := expand_eq_ok h
    exact ⟨hlater.isUntagged hg, hlater, hshape⟩
  stable g g' id s hg hlater h := shape_eq_ok_of_flattensTo hg hlater h
  references g id s hg h ref href := by
    rw [(shape_eq_ok hg h).1] at href
    exact lt_size_of_node (not_scalar_of_mem_references href)
  size g g' hlater := hlater.size
  refl g := .refl g
  trans g g' g'' h h' := h.trans h'

/-- The source of a container is what its layout says. -/
theorem sourceSlot_eq (g : Graph) (id : NodeId) : g.sourceSlot id = slotBy Written.spell g id := by
  rw [sourceSlot, slotBy]
  rfl

theorem sourceEntry_eq_ok {g : Graph} {e : NodeId × NodeId} {p : Value × Slot}
    (h : g.sourceEntry e = .ok p) :
    p = ((g.written e.1).spell, slotBy Written.spell g e.2) := by
  rw [sourceEntry, sourceSlot_eq, sourceSlot_eq] at h
  split at h
  · rename_i key hkey
    cases h
    rw [slotBy] at hkey
    split at hkey
    · rename_i hn
      cases hkey
      rw [written, hn]
    · cases hkey
  · cases h

theorem sourceShape_eq_ok {g : Graph} {id : NodeId} {s : Shape} (h : g.sourceShape id = .ok s) :
    s = shapeBy Written.spell g id := by
  cases hn : g.node id with
  | scalar tag text =>
    rw [sourceShape, hn] at h
    cases h
    rw [shapeBy, hn]
  | sequence tag items =>
    rw [sourceShape, hn] at h
    cases h
    rw [shapeBy, hn, funext (sourceSlot_eq g)]
  | mapping tag es =>
    rw [sourceShape, hn] at h
    obtain ⟨entries, hentries, h⟩ := Outcome.bind_eq_ok_iff.mp h
    cases h
    rw [shapeBy, hn, Outcome.eq_map_of_mapM_eq_ok (fun x _ y hy => sourceEntry_eq_ok hy) hentries]

/-- The containers of the source are read from one graph. -/
theorem expansion_sourceShape :
    Heap.Expansion (fun g id => do return (g, ← g.sourceShape id)) (fun _ => True) Eq
      fun g id s => g.sourceShape id = .ok s where
  step g id g' s _ h := by
    obtain ⟨t, hshape, h⟩ := Outcome.bind_eq_ok_iff.mp h
    cases h
    exact ⟨trivial, rfl, hshape⟩
  stable g g' id s _ hlater h := hlater ▸ h
  references g id s _ h ref href := by
    rw [sourceShape_eq_ok h] at href
    exact lt_size_of_node (not_scalar_of_mem_references href)
  size g g' hlater := hlater ▸ rfl
  refl g := rfl
  trans g g' g'' h h' := h.trans h'

/-- What is found when the data of a document is read: every container that is reached is in the
heap as it is read from the graph without merge entries. -/
theorem dataHeap_spec {g g' : Graph} (hg : g.IsUntagged) {root : NodeId} {h : Heap}
    {start : Slot} (hdata : g.dataHeap root = .ok (g', h, start)) :
    g'.IsUntagged ∧ FlattensTo none g g' ∧
      Heap.Explored (fun id s => g'.shape id = .ok s) g'.size h [] ∧
      start = slotBy Written.resolve g' root ∧ ∀ id, start = .node id → id ∈ h.ids := by
  rw [dataHeap] at hdata
  obtain ⟨s, hs, hdata⟩ := Outcome.bind_eq_ok_iff.mp hdata
  obtain ⟨⟨g₁, h₁⟩, hsearch, hdata⟩ := Outcome.bind_eq_ok_iff.mp hdata
  cases hdata
  have hroot : ∀ id, start = .node id → id < g.size := by
    rintro id rfl
    obtain ⟨hx, hn⟩ := slotBy_eq_node (slot_eq_ok hg hs).1.symm
    exact hx ▸ lt_size_of_node hn
  obtain ⟨hg', hlater, hexplored, hstart⟩ := Heap.ofSlot_spec expansion_expand hg hroot hsearch
  exact ⟨hg', hlater, hexplored, (slot_eq_ok hg' (slot_eq_ok_of_flattensTo hg hlater hs)).1, hstart⟩

/-- The data of a document is its layout, read as what its scalars stand for. -/
theorem dataHeap_eq_read {g g' : Graph} (hg : g.IsUntagged) {root : NodeId} {h : Heap}
    {start : Slot} (hdata : g.dataHeap root = .ok (g', h, start)) :
    g'.IsUntagged ∧ h.value start = (g'.layoutFrom (g'.size + 1) [] root).data := by
  obtain ⟨hg', -, hexplored, hslot, hstart⟩ := dataHeap_spec hg hdata
  -- The search has kept what it has read of the graph as it is left in the end.
  have hh := hexplored.imp fun id s hs => (shape_eq_ok hg' hs).1
  have hvalue := Heap.valueFrom_slotBy hh (h.shapes.length + 1) (g'.size + 1) List.nodup_nil
    (by simp) (by simp [Heap.ids]) (by simp) root
    fun hn => hstart root (hslot.trans (slotBy_of_not_scalar hn))
  rw [Heap.value, hslot]
  exact ⟨hg', hvalue⟩

/-- What is found when the source of a document is read: every container that is reached is in the
heap, with its scalars as they are written. -/
theorem sourceHeap_spec {g : Graph} {root : NodeId} {h : Heap} {start : Slot}
    (hsource : g.sourceHeap root = .ok (h, start)) :
    start = slotBy Written.spell g root ∧
      Heap.Explored (fun id s => g.sourceShape id = .ok s) g.size h [] ∧
      ∀ id, start = .node id → id ∈ h.ids := by
  rw [sourceHeap] at hsource
  obtain ⟨⟨g₁, h₁⟩, hsearch, hsource⟩ := Outcome.bind_eq_ok_iff.mp hsource
  cases hsource
  have hroot : ∀ id, g.sourceSlot root = .node id → id < g.size := by
    intro id hid
    rw [sourceSlot_eq] at hid
    obtain ⟨hx, hn⟩ := slotBy_eq_node hid
    exact hx ▸ lt_size_of_node hn
  obtain ⟨-, rfl, hexplored, hstart⟩ :=
    Heap.ofSlot_spec expansion_sourceShape trivial hroot hsearch
  exact ⟨sourceSlot_eq g root, hexplored, hstart⟩

/-- The source of a document is its layout, read as it is written. -/
theorem sourceHeap_eq_read {g : Graph} {root : NodeId} {h : Heap} {start : Slot}
    (hsource : g.sourceHeap root = .ok (h, start)) :
    h.value start = (g.layoutFrom (g.size + 1) [] root).source := by
  obtain ⟨hslot, hexplored, hstart⟩ := sourceHeap_spec hsource
  have hh := hexplored.imp fun _ _ hs => sourceShape_eq_ok hs
  have hvalue := Heap.valueFrom_slotBy hh (h.shapes.length + 1) (g.size + 1)
    List.nodup_nil (by simp) (by simp [Heap.ids]) (by simp) root
    fun hn => hstart root (hslot.trans (slotBy_of_not_scalar hn))
  rw [Heap.value, hslot]
  exact hvalue

/-- Without explicit tags data and source of a document are the two readings of its layout. -/
theorem sourced_eq_read {g : Graph} (hg : g.IsUntagged) {root : NodeId} {v : SourcedValue}
    (h : g.sourced root = .ok v) :
    ∃ ℓ, g.layout root = .ok ℓ ∧ ℓ.isSound 0 = true ∧ v.data = ℓ.data ∧ v.source = ℓ.source := by
  rw [sourced] at h
  obtain ⟨⟨g', dataHeap, dataSlot⟩, hdata, h⟩ := Outcome.bind_eq_ok_iff.mp h
  obtain ⟨⟨sourceHeap, sourceSlot⟩, hsource, h⟩ := Outcome.bind_eq_ok_iff.mp h
  cases h
  obtain ⟨hg', hvalue⟩ := dataHeap_eq_read hg hdata
  -- The source is read from the graph that the data leaves, so both have one layout.
  refine ⟨g'.layoutFrom (g'.size + 1) [] root, ?_, isSound_layoutFrom hg' _ [] root, hvalue,
    sourceHeap_eq_read hsource⟩
  rw [layout, hdata]
  rfl

end PipelineManifest.Yaml.Graph
