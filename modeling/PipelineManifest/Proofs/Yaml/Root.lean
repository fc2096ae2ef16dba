import PipelineManifest.Proofs.Related
import PipelineManifest.Proofs.Yaml.Sourced

/-!
# `PipelineManifest.Proofs.Yaml.Root`: what data and source share, with tags or without

Data and source of a document are found in two searches, which treat tags differently: in the data a
mapping can be a set or a time, if its tag says so, and in the source it is a mapping always. The
graph itself changes between the two searches, when merge entries are replaced. What has been read
of a container stays true all the same: a sequence keeps its items and a mapping its entries, and no
scalar that has been read changes. So, tags or not, two things are certain. If the data is a
mapping, so is the source, and as a source holds what stands in the file, it can be written. And
where a step of a pipeline is a container in the data, there is one in the source.

* `Graph.Stands`, `Graph.Holds`: what is read of a node, and of a container.
* `Graph.expansion_holds`, `Graph.dataHeap_holds`: what has been read stays true.
* `SourcedValue.IsSourced`, `isSourced_of_readStream`: the source of a mapping is a mapping that can
  be written.
* `SourcedValue.HasStepSources`, `hasStepSources_of_readStream`: the sources of steps.
-/

set_option autoImplicit false

namespace PipelineManifest.Yaml

/-- Whether the source of a document is a mapping that can be written, if its data is a mapping. -/
def SourcedValue.IsSourced (v : SourcedValue) : Prop :=
  (∃ es, v.data = .map es) → ∃ fs, v.source = .map fs ∧ (Value.map fs).isWritable = true

/-- Whether the source of a document that is not empty is not empty either, and has a list of steps
where the data has one, with a container in the place of each step that is a container. -/
structure SourcedValue.HasStepSources (v : SourcedValue) : Prop where
  isTruthy {es : List (Value × Value)} (hdata : v.data = .map es) (hes : es ≠ []) :
    v.source.isTruthy = true
  steps {vs : List Value} (hdata : v.data.get "steps" = .ok (some (.seq vs))) :
    ∃ ws, v.source.get "steps" = .ok (some (.seq ws)) ∧
      List.Forall₂ (fun a b => a.isScalar = false → b.isScalar = false)
        (Value.items vs) (Value.items ws)

namespace Graph

/-! ### What is read of a node -/

/-- What is read as a scalar is none of the containers. -/
theorem isScalar_of_scalarValue {g : Graph} {id : NodeId} {v : Value}
    (h : g.scalarValue id = .ok v) : v.isScalar = true := by
  rw [scalarValue] at h
  obtain ⟨text, -, h⟩ := Outcome.bind_eq_ok_iff.mp h
  split at h
  · cases h
  · rename_i hread _
    rw [h] at hread
    exact (read?_eq_ok hread).1
  · cases h

/-- What a node stands for in a place of a container: itself, or what its tag makes of its text. The
text of a mapping that has the tag of a scalar is left open. -/
inductive Stands (g : Graph) (id : NodeId) : Slot → Prop
  | node (hid : id < g.size) : Stands g id (.node id)
  | leaf {v : Value} (hv : v.isScalar = true) (hmark : g.tag id ≠ .merge)
    (hread : ∀ tag text, g.node id = .scalar tag text → tag.read? text = some (.ok v)) :
    Stands g id (.leaf v)

variable {g g' : Graph} {id : NodeId}

/-- Only a node of the graph has the tag of a container. -/
theorem lt_size_of_isContainerTag (h : isContainerTag (g.tag id) = true) : id < g.size := by
  by_cases hid : id < g.size
  · exact hid
  · have hout : g.node id = .scalar .text "" := by
      rw [node, Array.getD_eq_getD_getElem?, Array.getElem?_eq_none (Nat.le_of_not_lt hid)]
      rfl
    rw [tag, hout] at h
    cases h

theorem stands_of_slot {s : Slot} (h : g.slot id = .ok s) : g.Stands id s := by
  rw [slot] at h
  split at h
  · rename_i htag
    cases h
    exact .node (lt_size_of_isContainerTag htag)
  · cases hv : g.scalarValue id with
    | error d =>
      rw [hv] at h
      cases h
    | ok v =>
      rw [hv] at h
      cases h
      refine .leaf (isScalar_of_scalarValue hv) ?_ ?_
      -- By a mark nothing is read.
      · intro hmerge
        rw [scalarValue, hmerge] at hv
        obtain ⟨text, -, hv⟩ := Outcome.bind_eq_ok_iff.mp hv
        split at hv
        · cases hv
        · rename_i hread _
          cases hread
        · cases hv
      · intro tag text hn
        rw [scalarValue_of_scalar hn] at hv
        cases hread : tag.read? text with
        | none =>
          rw [hread] at hv
          cases hv
        | some r =>
          rw [hread] at hv
          exact congrArg some hv

/-- What has been read of a node stays true: a scalar that has been read was no default mark. -/
theorem Stands.flattensTo {s : Slot} (hs : g.Stands id s) (h : FlattensTo none g g') :
    g'.Stands id s := by
  cases hs with
  | node hid => exact .node (h.size ▸ hid)
  | leaf hv hmark hread =>
    refine .leaf hv ((h.refines id).tag.ne_merge hmark) ?_
    intro tag text hn'
    have hrefines := h.refines id
    rw [hn'] at hrefines
    generalize hn : g.node id = n at hrefines
    cases hrefines with
    | @scalar t _ ht =>
      have hread := hread t text hn
      cases ht with
      | same => exact hread
      | named => cases hread

/-! ### What is read of a container -/

/-- What the key and the value of an entry stand for. -/
def EntryStands (g : Graph) (e : NodeId × NodeId) (p : Value × Slot) : Prop :=
  g.Stands e.1 (.leaf p.1) ∧ g.Stands e.2 p.2

/-- What a mapping stands for in a list of pairs. -/
def PairStands (g : Graph) (id : NodeId) (p : Slot × Slot) : Prop :=
  g.isMapping id = true ∧ (∃ x, g.Stands x p.1) ∧ ∃ x, g.Stands x p.2

/-- What a container holds: a list what the items of a sequence stand for, a mapping or a set what
keys and values stand for. A pair is read from a mapping. -/
inductive Holds (g : Graph) (id : NodeId) : Shape → Prop
  | seq {tag : Tag} {items : List NodeId} {slots : List Slot}
    (hnode : g.node id = .sequence tag items) (hslots : List.Forall₂ g.Stands items slots) :
    Holds g id (.seq slots)
  | pairs {tag : Tag} {items : List NodeId} {pairs : List (Slot × Slot)}
    (hnode : g.node id = .sequence tag items) (hpairs : List.Forall₂ g.PairStands items pairs) :
    Holds g id (.pairs pairs)
  | map {entries : List (Value × Slot)} (hnode : g.isMapping id = true)
    (hentries : List.Forall₂ g.EntryStands (g.entries id) entries) :
    Holds g id (.map entries)
  | set {entries : List (Value × Slot)} (hnode : g.isMapping id = true)
    (hentries : List.Forall₂ g.EntryStands (g.entries id) entries) :
    Holds g id (.set entries)

theorem pairStands_of_pairSlot {p : Slot × Slot} (h : g.pairSlot id = .ok p) :
    g.PairStands id p := by
  rw [pairSlot] at h
  split at h
  · rename_i tag e hn
    obtain ⟨s, hs, h⟩ := Outcome.bind_eq_ok_iff.mp h
    obtain ⟨t, ht, h⟩ := Outcome.bind_eq_ok_iff.mp h
    cases h
    exact ⟨isMapping_iff.mpr ⟨tag, _, hn⟩, ⟨_, stands_of_slot hs⟩, _, stands_of_slot ht⟩
  · cases h

theorem entryStands_of_entrySlot {e : NodeId × NodeId} {p : Value × Slot}
    (h : g.entrySlot e = .ok p) : g.EntryStands e p := by
  rw [entrySlot] at h
  obtain ⟨s, hs, h⟩ := Outcome.bind_eq_ok_iff.mp h
  cases s with
  | node x => cases h
  | leaf key =>
    obtain ⟨t, ht, h⟩ := Outcome.bind_eq_ok_iff.mp h
    cases h
    exact ⟨stands_of_slot hs, stands_of_slot ht⟩

theorem entriesStand_of_entrySlots {es : List (NodeId × NodeId)} {entries : List (Value × Slot)}
    (h : es.mapM g.entrySlot = .ok entries) : List.Forall₂ g.EntryStands es entries :=
  Outcome.forall₂_of_mapM_eq_ok (fun _ _ => entryStands_of_entrySlot) h

theorem holds_of_shape {s : Shape} (h : g.shape id = .ok s) : g.Holds id s := by
  rw [shape] at h
  split at h
  case h_1 items _ hn =>
    obtain ⟨slots, hslots, h⟩ := Outcome.bind_eq_ok_iff.mp h
    cases h
    exact .seq hn (Outcome.forall₂_of_mapM_eq_ok (fun _ _ => stands_of_slot) hslots)
  case h_2 hn | h_3 hn =>
    obtain ⟨pairs, hpairs, h⟩ := Outcome.bind_eq_ok_iff.mp h
    cases h
    exact .pairs hn (Outcome.forall₂_of_mapM_eq_ok (fun _ _ => pairStands_of_pairSlot) hpairs)
  case h_4 hn =>
    obtain ⟨entries, hentries, h⟩ := Outcome.bind_eq_ok_iff.mp h
    rw [← entries_of_mapping hn] at hentries
    cases h
    exact .map (isMapping_iff.mpr ⟨_, _, hn⟩) (entriesStand_of_entrySlots hentries)
  case h_5 hn =>
    obtain ⟨entries, hentries, h⟩ := Outcome.bind_eq_ok_iff.mp h
    rw [← entries_of_mapping hn] at hentries
    cases h
    exact .set (isMapping_iff.mpr ⟨_, _, hn⟩) (entriesStand_of_entrySlots hentries)
  case h_6 => cases h

/-! ### What has been read stays true -/

theorem EntryStands.flattensTo {e : NodeId × NodeId} {p : Value × Slot} (hp : g.EntryStands e p)
    (h : FlattensTo none g g') : g'.EntryStands e p :=
  ⟨hp.1.flattensTo h, hp.2.flattensTo h⟩

theorem PairStands.flattensTo {p : Slot × Slot} (hp : g.PairStands id p)
    (h : FlattensTo none g g') : g'.PairStands id p :=
  ⟨h.isMapping hp.1, hp.2.1.imp fun _ hs => hs.flattensTo h, hp.2.2.imp fun _ hs => hs.flattensTo h⟩

/-- A mapping whose entries have been read has no merge entry. -/
theorem isSettled_of_entriesStand {entries : List (Value × Slot)} (hnode : g.isMapping id = true)
    (hentries : List.Forall₂ g.EntryStands (g.entries id) entries) : g.IsSettled id := by
  refine ⟨hnode, fun e he => ?_⟩
  obtain ⟨p, -, hkey, -⟩ := exists_of_mem_left hentries he
  cases hkey with
  | leaf _ hmark _ => exact hmark

theorem entriesStand_of_flattensTo {entries : List (Value × Slot)} (hnode : g.isMapping id = true)
    (hentries : List.Forall₂ g.EntryStands (g.entries id) entries) (h : FlattensTo none g g') :
    List.Forall₂ g'.EntryStands (g'.entries id) entries := by
  rw [h.settled id (by simp) (isSettled_of_entriesStand hnode hentries)]
  exact hentries.imp fun _ _ hp => hp.flattensTo h

/-- What has been read of a container stays true. -/
theorem Holds.flattensTo {s : Shape} (hs : g.Holds id s) (h : FlattensTo none g g') :
    g'.Holds id s := by
  cases hs with
  | seq hnode hslots =>
    obtain ⟨tag, hnode'⟩ := h.exists_sequence hnode
    exact .seq hnode' (hslots.imp fun _ _ hs => hs.flattensTo h)
  | pairs hnode hpairs =>
    obtain ⟨tag, hnode'⟩ := h.exists_sequence hnode
    exact .pairs hnode' (hpairs.imp fun _ _ hp => hp.flattensTo h)
  | map hnode hentries =>
    exact .map (h.isMapping hnode) (entriesStand_of_flattensTo hnode hentries h)
  | set hnode hentries =>
    exact .set (h.isMapping hnode) (entriesStand_of_flattensTo hnode hentries h)

/-- What a container refers to are nodes of the graph. -/
theorem Holds.lt_size {s : Shape} (hs : g.Holds id s) : ∀ ref ∈ s.references, ref < g.size := by
  have hslot : ∀ slot ∈ s.slots, ∃ x, g.Stands x slot := by
    cases hs with
    | seq _ hslots =>
      intro slot hslot
      exact (exists_of_mem_right hslots hslot).imp fun _ hx => hx.2
    | pairs _ hpairs =>
      intro slot hslot
      obtain ⟨p, hp, hslot⟩ := List.mem_flatMap.mp hslot
      obtain ⟨x, -, -, hfirst, hsecond⟩ := exists_of_mem_right hpairs hp
      rcases List.mem_pair.mp hslot with rfl | rfl
      · exact hfirst
      · exact hsecond
    | map _ hentries | set _ hentries =>
      intro slot hslot
      obtain ⟨p, hp, rfl⟩ := List.mem_map.mp hslot
      obtain ⟨e, -, -, hvalue⟩ := exists_of_mem_right hentries hp
      exact ⟨e.2, hvalue⟩
  intro ref href
  obtain ⟨x, hx⟩ := hslot _ (Shape.mem_references.mp href)
  cases hx with
  | node hid => exact hid

/-- Every container is read while merge entries are replaced, and what has been read of it is still
true when all are. -/
theorem expansion_holds :
    Heap.Expansion expand (fun _ => True) (FlattensTo none) Holds where
  step g id g' s _ h := by
    obtain ⟨hlater, hshape⟩ := expand_eq_ok h
    exact ⟨trivial, hlater, holds_of_shape hshape⟩
  stable g g' id s _ hlater h := h.flattensTo hlater
  references g id s _ h := h.lt_size
  size g g' hlater := hlater.size
  refl g := .refl g
  trans g g' g'' h h' := h.trans h'

/-- What the data of a document is read from: the containers that are reached, and what the root
stands for. -/
theorem dataHeap_holds {root : NodeId} {h : Heap} {start : Slot}
    (hdata : g.dataHeap root = .ok (g', h, start)) :
    g'.Stands root start ∧ Heap.Explored g'.Holds g'.size h [] ∧
      ∀ id, start = .node id → id ∈ h.ids := by
  rw [dataHeap] at hdata
  obtain ⟨s, hs, hdata⟩ := Outcome.bind_eq_ok_iff.mp hdata
  obtain ⟨⟨g₁, h₁⟩, hsearch, hdata⟩ := Outcome.bind_eq_ok_iff.mp hdata
  cases hdata
  have hstands := stands_of_slot hs
  have hroot : ∀ id, start = .node id → id < g.size := by
    rintro id rfl
    cases hstands with
    | node hid => exact hid
  obtain ⟨-, hlater, hexplored, hstart⟩ :=
    Heap.ofSlot_spec expansion_holds trivial hroot hsearch
  exact ⟨hstands.flattensTo hlater, hexplored, hstart⟩

/-! ### Documents that are mappings -/

theorem Holds.not_scalar {s : Shape} (hs : g.Holds id s) :
    ∀ tag text, g.node id ≠ .scalar tag text := by
  cases hs with
  | seq hnode | pairs hnode =>
    rw [hnode]
    exact nofun
  | map hnode | set hnode =>
    obtain ⟨tag, es, hnode⟩ := isMapping_iff.mp hnode
    rw [hnode]
    exact nofun

/-- A document whose data is a mapping: `nodes` are the entries of its root in the graph without
merge entries, and `entries` what they stand for in the data. -/
structure Opened (g : Graph) (h : Heap) (root : NodeId) (nodes : List (NodeId × NodeId))
    (entries : List (Value × Slot)) (v : SourcedValue) : Prop where
  explored : Heap.Explored g.Holds g.size h []
  bound : root < g.size
  references : ∀ id, Slot.node id ∈ entries.map Prod.snd → id ∈ h.ids
  stands : List.Forall₂ g.EntryStands nodes entries
  keys : ∀ e ∈ nodes, ∃ tag text, g.node e.1 = .scalar tag text
  data : v.data = .map (Value.ofEntries
    (entries.map fun p => (p.1, h.valueFrom h.shapes.length [some root] p.2)))
  source : v.source = .map (Value.ofEntries
    (nodes.map fun e => ((g.written e.1).spell, (g.layoutFrom g.size [root] e.2).source)))

/-- The keys of a mapping whose source has been read are scalars. -/
theorem exists_scalar_of_sourceShape {tag : Tag} {es : List (NodeId × NodeId)} {s : Shape}
    (hn : g.node id = .mapping tag es) (h : g.sourceShape id = .ok s) :
    ∀ e ∈ es, ∃ tag text, g.node e.1 = .scalar tag text := by
  rw [sourceShape, hn] at h
  obtain ⟨entries, hentries, -⟩ := Outcome.bind_eq_ok_iff.mp h
  intro e he
  obtain ⟨p, hp⟩ := Outcome.exists_of_mapM_eq_ok hentries e he
  cases hnode : g.node e.1 with
  | scalar tag text => exact ⟨tag, text, rfl⟩
  | sequence | mapping =>
    rw [sourceEntry, sourceSlot, hnode] at hp
    cases hp

theorem source_of_mapping {tag : Tag} {es : List (NodeId × NodeId)} {fuel : Nat}
    (hn : g.node id = .mapping tag es) :
    (g.layoutFrom (fuel + 1) [] id).source = .map (Value.ofEntries
      (es.map fun e => ((g.written e.1).spell, (g.layoutFrom fuel [id] e.2).source))) := by
  rw [layoutFrom_of_mapping hn rfl, Layout.source, Layout.read, Layout.readEntries_eq_map,
    List.map_map]
  rfl

/-- A document whose data is a mapping is read from a mapping of the graph, and so is its source. -/
theorem exists_opened {root : NodeId} {v : SourcedValue} (h : g.sourced root = .ok v)
    {es : List (Value × Value)} (hdata : v.data = .map es) :
    ∃ g' heap nodes entries, Opened g' heap root nodes entries v := by
  rw [sourced] at h
  obtain ⟨⟨g', heap, start⟩, hheap, h⟩ := Outcome.bind_eq_ok_iff.mp h
  obtain ⟨⟨sourceHeap, sourceStart⟩, hsource, h⟩ := Outcome.bind_eq_ok_iff.mp h
  cases h
  obtain ⟨hstands, hexplored, hstart⟩ := dataHeap_holds hheap
  cases hstands with
  -- A scalar is no mapping.
  | @leaf w hv =>
    rw [show w = .map es from hdata] at hv
    cases hv
  | node hbound =>
    obtain ⟨s, hs, hmem⟩ := Heap.exists_shape? (hstart root rfl)
    have hvalue : heap.value (.node root) = .map es := hdata
    rw [Heap.value, Heap.valueFrom] at hvalue
    simp only [List.idxOf?_nil, hs] at hvalue
    have hholds : g'.Holds root s := hexplored.shape _ hmem
    cases hholds with
    | seq | pairs | set => cases hvalue
    | @map entries hnode hentries =>
      obtain ⟨tag, nodes, hnode⟩ := isMapping_iff.mp hnode
      rw [entries_of_mapping hnode] at hentries
      obtain ⟨hslot, hread, hroot⟩ := sourceHeap_spec hsource
      have hnot : ∀ tag text, g'.node root ≠ .scalar tag text := by simp [hnode]
      obtain ⟨t, -, ht⟩ :=
        Heap.exists_shape? (hroot root (hslot.trans (slotBy_of_not_scalar hnot)))
      refine ⟨g', heap, nodes, entries, hexplored, hbound, ?_, hentries,
        exists_scalar_of_sourceShape hnode (hread.shape _ ht), ?_, ?_⟩
      · intro id hid
        simpa using hexplored.references _ hmem id (Shape.mem_references.mpr hid)
      · rw [Value.ofEntries_map]
        exact hdata.trans hvalue.symm
      · exact (sourceHeap_eq_read hsource).trans (source_of_mapping hnode)

/-! ### Steps -/

/-- Of the containers in a list of the data none is a scalar of the graph. -/
theorem exists_items_of_seq {h : Heap} (hh : Heap.Explored g.Holds g.size h []) {x : NodeId}
    (hx : x ∈ h.ids) {fuel : Nat} {path : List (Option NodeId)} {ws : List Value}
    (hvalue : h.valueFrom fuel path (.node x) = .seq ws) :
    path.idxOf? (some x) = none ∧ ∃ tag items, g.node x = .sequence tag items ∧
      List.Forall₂ (fun y w => w.isScalar = false → ∀ tag text, g.node y ≠ .scalar tag text)
        items ws := by
  cases fuel with
  | zero => cases hvalue
  | succ fuel =>
    obtain ⟨s, hs, hmem⟩ := Heap.exists_shape? hx
    have hrefs : ∀ ref, Slot.node ref ∈ s.slots → ref ∈ h.ids := by
      intro ref href
      simpa using hh.references _ hmem ref (Shape.mem_references.mpr href)
    have hholds : g.Holds x s := hh.shape _ hmem
    rw [Heap.valueFrom] at hvalue
    cases hpath : path.idxOf? (some x) with
    | some levels =>
      rw [hpath] at hvalue
      cases hvalue
    | none =>
      simp only [hpath, hs] at hvalue
      refine ⟨rfl, ?_⟩
      cases hholds with
      | @seq tag items slots hnode hslots =>
        -- An item that is no scalar value has a shape of its own in the heap.
        cases hvalue
        refine ⟨tag, items, hnode, List.forall₂_map_right_iff.mpr ?_⟩
        refine forall₂_imp_of_mem hslots fun y _ slot hslot hy hw => ?_
        cases hy with
        | leaf hv =>
          rw [Heap.valueFrom, hv] at hw
          cases hw
        | node =>
          obtain ⟨t, -, ht⟩ := Heap.exists_shape? (hrefs y hslot)
          exact (hh.shape _ ht).not_scalar
      | @pairs tag items pairs hnode hpairs =>
        -- Pairs are mappings of one entry each, whatever becomes of them.
        cases hvalue
        refine ⟨tag, items, hnode, List.forall₂_map_right_iff.mpr (hpairs.imp ?_)⟩
        rintro y p ⟨hy, -⟩ -
        obtain ⟨t, es, hn⟩ := isMapping_iff.mp hy
        simp [hn]
      | map | set => cases hvalue

/-- What is no scalar of the graph is a container in the source. -/
theorem isScalar_source {fuel : Nat} {path : List NodeId}
    (hn : ∀ tag text, g.node id ≠ .scalar tag text) :
    (g.layoutFrom (fuel + 1) path id).source.isScalar = false := by
  cases hpath : path.idxOf? id with
  | some levels =>
    rw [layoutFrom_of_back hn hpath]
    rfl
  | none =>
    cases hnode : g.node id with
    | scalar tag text => exact absurd hnode (hn tag text)
    | sequence tag items =>
      rw [layoutFrom_of_sequence hnode hpath]
      rfl
    | mapping tag es =>
      rw [layoutFrom_of_mapping hnode hpath]
      rfl

/-- The name of the steps is no number, no time and nothing else that a tag could make of it. -/
theorem eq_of_read?_steps {tag : Tag} {v : Value} (h : tag.read? "steps" = some (.ok v)) :
    tag = .null ∨ tag = .text := by
  cases tag with
  | null => exact .inl rfl
  | text => exact .inr rfl
  | boolean =>
    rw [Tag.read?, show readBoolean _ = .error .noBoolean by rfl] at h
    cases h
  | integer =>
    rw [Tag.read?, show readInteger _ = .error .noNumber by rfl] at h
    cases h
  | float =>
    rw [Tag.read?, show readFloatNumber _ = .error .noNumber by rfl] at h
    cases h
  | binary =>
    rw [Tag.read?, show readBinary _ = .error .rejected by rfl] at h
    cases h
  | timestamp =>
    rw [Tag.read?, show readTime _ = .error .noTime by rfl] at h
    cases h
  | _ => cases h

/-- A key names the steps in the data exactly if it does in the source. -/
theorem key_eq_steps_iff {key : Value} (hkey : g.Stands id (.leaf key))
    (hid : ∃ tag text, g.node id = .scalar tag text) :
    key = .str "steps" ↔ (g.written id).spell = .str "steps" := by
  obtain ⟨tag, text, hn⟩ := hid
  have hwritten : g.written id = ⟨tag, text⟩ := by rw [written, hn]
  cases hkey with
  | leaf _ _ hread =>
    have hread := hread tag text hn
    rw [hwritten, Written.spell]
    constructor
    · intro h
      obtain ⟨rfl, rfl⟩ := (read?_eq_ok hread).2 _ h
      rfl
    · intro h
      split at h
      · cases h
      · rename_i hnull
        have htext : text = "steps" := Value.str.inj h
        subst htext
        rcases eq_of_read?_steps hread with rfl | rfl
        · exact absurd rfl hnull
        · exact (Except.ok.inj (Option.some.inj hread)).symm

namespace Opened

variable {h : Heap} {root : NodeId} {nodes : List (NodeId × NodeId)}
  {entries : List (Value × Slot)} {v : SourcedValue}

/-- Under the name of the steps stands one node, as it is read in the data and in the source. -/
theorem rel_lookup?_steps (hv : Opened g h root nodes entries v) :
    Option.Rel
      (fun a b => ∃ x slot, g.Stands x slot ∧ (∀ id, slot = .node id → id ∈ h.ids) ∧
        a = h.valueFrom h.shapes.length [some root] slot ∧
        b = (g.layoutFrom g.size [root] x).source)
      (Value.lookup? (.str "steps") (Value.ofEntries
        (entries.map fun p => (p.1, h.valueFrom h.shapes.length [some root] p.2))))
      (Value.lookup? (.str "steps") (Value.ofEntries (nodes.map fun e =>
        ((g.written e.1).spell, (g.layoutFrom g.size [root] e.2).source)))) := by
  refine Value.rel_lookup?_ofEntries ?_
  rw [List.forall₂_map_left_iff, List.forall₂_map_right_iff]
  refine List.Forall₂.flip (forall₂_imp_of_mem hv.stands fun e he p hp hstands => ?_)
  refine ⟨key_eq_steps_iff hstands.1 (hv.keys e he), e.2, p.2, hstands.2, ?_, rfl, rfl⟩
  rintro id hid
  exact hv.references id (List.mem_map.mpr ⟨p, hp, hid⟩)

/-- A list in the data is a list in the source, with a container in the place of each container. -/
theorem source_of_seq (hv : Opened g h root nodes entries v) {x : NodeId} {slot : Slot}
    (hstands : g.Stands x slot) (hmem : ∀ id, slot = .node id → id ∈ h.ids) {ws : List Value}
    (hvalue : .seq ws = h.valueFrom h.shapes.length [some root] slot) :
    ∃ us, (g.layoutFrom g.size [root] x).source = .seq us ∧
      List.Forall₂ (fun a b => a.isScalar = false → b.isScalar = false) ws us := by
  cases hstands with
  | leaf hscalar =>
    rw [Heap.valueFrom] at hvalue
    rw [← hvalue] at hscalar
    cases hscalar
  | node hx =>
    obtain ⟨hpath, tag, items, hnode, hitems⟩ :=
      exists_items_of_seq hv.explored (hmem x rfl) hvalue.symm
    have hback : [root].idxOf? x = none := by
      rw [← idxOf?_map_some]
      exact hpath
    -- The list is not the root, so two levels of the source do not use up the number of nodes.
    obtain ⟨n, hsize⟩ : ∃ n, g.size = n + 2 := by
      have hne : x ≠ root := by simpa using List.idxOf?_eq_none_iff.mp hback
      have htwo : ∀ a b n : Nat, a ≠ b → a < n → b < n → n = n - 2 + 2 := by omega
      exact ⟨g.size - 2, htwo x root g.size hne hx hv.bound⟩
    rw [hsize, layoutFrom_of_sequence hnode hback, Layout.source, Layout.read,
      Layout.readItems_eq_map, List.map_map]
    refine ⟨_, rfl, List.forall₂_map_right_iff.mpr ?_⟩
    exact List.Forall₂.flip (hitems.imp fun y w hw hscalar => isScalar_source (hw hscalar))

/-- The steps of the data are the steps of the source, with a container in the place of each
container. -/
theorem steps (hv : Opened g h root nodes entries v) {vs : List Value}
    (hvs : v.data.get "steps" = .ok (some (.seq vs))) :
    ∃ ws, v.source.get "steps" = .ok (some (.seq ws)) ∧
      List.Forall₂ (fun a b => a.isScalar = false → b.isScalar = false)
        (Value.items vs) (Value.items ws) := by
  rw [hv.data, Value.get_map] at hvs
  obtain ⟨as, has, hvs⟩ := Value.exists_lookup?_of_field?_seq (Except.ok.inj hvs)
  have hboth := hv.rel_lookup?_steps
  rw [has] at hboth
  obtain ⟨bs, hbs, hkinds⟩ : ∃ bs, Value.lookup? (.str "steps") (Value.ofEntries
        (nodes.map fun e => ((g.written e.1).spell, (g.layoutFrom g.size [root] e.2).source)))
      = some (.seq bs) ∧
        List.Forall₂ (fun a b => a.isScalar = false → b.isScalar = false) as bs := by
    generalize Value.lookup? (.str "steps") (Value.ofEntries
      (nodes.map fun e => ((g.written e.1).spell, (g.layoutFrom g.size [root] e.2).source))) = found
      at hboth
    cases hboth with
    | some hab =>
      obtain ⟨x, slot, hstands, hmem, hvalue, rfl⟩ := hab
      obtain ⟨bs, hsource, hkinds⟩ := hv.source_of_seq hstands hmem hvalue
      exact ⟨bs, congrArg some hsource, hkinds⟩
  obtain ⟨ws, hws, hsame⟩ := Value.exists_field?_of_lookup?_seq hbs
  refine ⟨ws, by rw [hv.source, Value.get_map, hws], ?_⟩
  -- What is taken out of a list is a container exactly where the list has one.
  have hraw : List.Forall₂ (fun a b => a = false → b = false)
      (as.map Value.isScalar) (bs.map Value.isScalar) :=
    List.forall₂_map_left_iff.mpr (List.forall₂_map_right_iff.mpr hkinds)
  rw [← hvs, ← hsame] at hraw
  exact List.forall₂_map_right_iff.mp (List.forall₂_map_left_iff.mp hraw)

/-- The source of a mapping that is not empty is not empty. -/
theorem isTruthy_source (hv : Opened g h root nodes entries v) {es : List (Value × Value)}
    (hdata : v.data = .map es) (hes : es ≠ []) : v.source.isTruthy = true := by
  have hnodes : nodes ≠ [] := by
    rintro rfl
    have hentries : entries = [] := List.forall₂_nil_left_iff.mp hv.stands
    rw [hv.data, hentries] at hdata
    cases hdata
    exact hes rfl
  rw [hv.source, Value.isTruthy, Bool.not_eq_true', List.isEmpty_eq_false_iff, ne_eq,
    Value.ofEntries_eq_nil_iff, List.map_eq_nil_iff]
  exact hnodes

end Opened

theorem hasStepSources {root : NodeId} {v : SourcedValue} (h : g.sourced root = .ok v) :
    v.HasStepSources where
  isTruthy hdata hes := by
    obtain ⟨_, _, _, _, hv⟩ := exists_opened h hdata
    exact hv.isTruthy_source hdata hes
  steps {vs} hvs := by
    obtain ⟨es, hes⟩ : ∃ es, v.data = .map es := by
      cases hdata : v.data with
      | map es => exact ⟨es, rfl⟩
      | _ =>
        rw [hdata] at hvs
        cases hvs
    obtain ⟨_, _, _, _, hv⟩ := exists_opened h hes
    exact hv.steps hvs

/-- The source of a document can be written. -/
theorem isWritable_source {root : NodeId} {v : SourcedValue} (h : g.sourced root = .ok v) :
    v.source.isWritable = true := by
  rw [sourced] at h
  obtain ⟨⟨g', heap, start⟩, -, h⟩ := Outcome.bind_eq_ok_iff.mp h
  obtain ⟨⟨sourceHeap, sourceSlot⟩, hsource, h⟩ := Outcome.bind_eq_ok_iff.mp h
  cases h
  exact sourceHeap_eq_read hsource ▸ Layout.isWritable_source _

theorem isSourced {root : NodeId} {v : SourcedValue} (h : g.sourced root = .ok v) :
    v.IsSourced := by
  rintro ⟨es, hes⟩
  obtain ⟨_, _, _, _, hv⟩ := exists_opened h hes
  exact ⟨_, hv.source, hv.source ▸ isWritable_source h⟩

end Graph

/-! ### Streams -/

/-- What holds of a document wherever it is read from holds of all documents of a text. -/
theorem forall_of_documentsFrom {P : SourcedValue → Prop}
    (hP : ∀ (g : Graph) root v, g.sourced root = .ok v → P v) (fuel : Nat) (first : Bool)
    {s : ComposeState} {vs : List SourcedValue} (h : documentsFrom fuel first s = .ok vs) :
    ∀ v ∈ vs, P v := by
  induction fuel generalizing first s vs with
  | zero =>
    cases h
    simp
  | succ fuel ih =>
    rw [documentsFrom] at h
    obtain ⟨⟨root?, s'⟩, -, h⟩ := Outcome.bind_eq_ok_iff.mp h
    cases root? with
    | none =>
      cases h
      simp
    | some root =>
      obtain ⟨v, hv, h⟩ := Outcome.bind_eq_ok_iff.mp h
      obtain ⟨rest, hrest, h⟩ := Outcome.bind_eq_ok_iff.mp h
      cases h
      exact List.forall_mem_cons.mpr ⟨hP _ _ _ hv, ih false hrest⟩

theorem forall_of_readStream {P : SourcedValue → Prop}
    (hP : ∀ (g : Graph) root v, g.sourced root = .ok v → P v) {text : String}
    {vs : List SourcedValue} (h : readStream text = .ok vs) : ∀ v ∈ vs, P v := by
  rw [readStream] at h
  obtain ⟨_, -, h⟩ := Outcome.bind_eq_ok_iff.mp h
  exact forall_of_documentsFrom hP ((ComposeState.start text).tokens.length + 1) true h

/-- Every document of a text has a source. -/
theorem isSourced_of_readStream {text : String} {vs : List SourcedValue}
    (h : readStream text = .ok vs) : ∀ v ∈ vs, v.IsSourced :=
  forall_of_readStream (fun _ _ _ => Graph.isSourced) h

theorem hasStepSources_of_readStream {text : String} {vs : List SourcedValue}
    (h : readStream text = .ok vs) : ∀ v ∈ vs, v.HasStepSources :=
  forall_of_readStream (fun _ _ _ => Graph.hasStepSources) h

end PipelineManifest.Yaml
