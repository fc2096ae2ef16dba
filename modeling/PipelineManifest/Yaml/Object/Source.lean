import PipelineManifest.Yaml.Object.Basic

/-!
# `PipelineManifest.Yaml.Object.Source`: the nodes of a document as they are written

The source of a document has the containers of its graph and, in place of what its scalars
stand for, the texts in which they are written; only null stays null. Tags of containers do not
count: a sequence is a sequence and a mapping a mapping.

* `Graph.sourceSlot`: a node in a place of a container.
* `Graph.sourceShape`: what a container holds.
* `Graph.sourceHeap`: the containers of a document.
-/

set_option autoImplicit false

namespace PipelineManifest.Yaml.Graph

/-- A node in a place of a container. -/
def sourceSlot (g : Graph) (id : NodeId) : Slot :=
  match g.node id with
  | .scalar tag text => .leaf (if tag = .null then .null else .str text)
  | _ => .node id

/-- An entry, whose key must be a scalar. -/
def sourceEntry (g : Graph) (e : NodeId × NodeId) : Except Defect (Value × Slot) :=
  match g.sourceSlot e.1 with
  | .leaf key => .ok (key, g.sourceSlot e.2)
  | .node _ => .error .noText

/-- What a container holds. -/
def sourceShape (g : Graph) (id : NodeId) : Except Defect Shape :=
  match g.node id with
  | .sequence _ items => .ok (.seq (items.map g.sourceSlot))
  | .mapping _ entries => do return .map (← entries.mapM g.sourceEntry)
  | .scalar .. => .ok (.seq [])

/-- The containers of the document at `root`, and the slot of the root. -/
def sourceHeap (g : Graph) (root : NodeId) : Except Defect (Heap × Slot) := do
  let start := g.sourceSlot root
  let (_, heap) ← Heap.ofSlot (fun g id => do return (g, ← g.sourceShape id)) g start
  return (heap, start)

end PipelineManifest.Yaml.Graph
