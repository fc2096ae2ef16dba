import PipelineManifest.Yaml.Node.Merge
import PipelineManifest.Yaml.Object.Basic
import PipelineManifest.Yaml.Scalar.Read

/-!
# `PipelineManifest.Yaml.Object.Data`: what the nodes of a document stand for

Each node stands for what its tag says. A scalar is read at once; a container is named first
and expanded later, in the order in which containers are met, so that it can contain itself.
Mappings are rid of their merge entries when they are expanded.

* `Graph.slot`: what a node stands for in a place of a container.
* `Graph.shape`: what a container holds.
* `Graph.dataHeap`: the containers of a document, and the graph without merge entries.
-/

set_option autoImplicit false

namespace PipelineManifest.Yaml.Graph

/-- The text of a node that is read as a scalar: its own, or that of the value beside the first
default mark in a mapping. -/
def scalarText (g : Graph) : (fuel : Nat) → NodeId → Except Defect String
  | 0, _ => .error .rejected
  | fuel + 1, id =>
    match g.node id with
    | .scalar _ text => .ok text
    | .sequence .. => .error .rejected
    | .mapping _ entries =>
      match entries.find? fun e => g.tag e.1 = .default with
      | some e => scalarText g fuel e.2
      | none => .error .rejected

/-- Whether a tag is one of a container. -/
def isContainerTag : Tag → Bool
  | .sequence | .mapping | .set | .orderedMap | .pairs => true
  | _ => false

/-- The value of a node with the tag of a scalar. A time is read only from a scalar. -/
def scalarValue (g : Graph) (id : NodeId) : Except Defect Value := do
  -- A default mark can lead to another mapping with one, but not more often than there are nodes.
  let text ← g.scalarText (g.size + 1) id
  match g.node id, (g.tag id).read? text with
  | .mapping .timestamp _, _ => throw .noText
  | _, some value => value
  | _, none => throw .rejected

/-- What a node stands for in a place of a container. -/
def slot (g : Graph) (id : NodeId) : Except Defect Slot :=
  if isContainerTag (g.tag id) then .ok (.node id)
  else (g.scalarValue id).map .leaf

/-- An entry whose key is no container. -/
def entrySlot (g : Graph) (e : NodeId × NodeId) : Except Defect (Value × Slot) := do
  match ← g.slot e.1 with
  | .leaf key => return (key, ← g.slot e.2)
  | .node _ => throw .rejected

/-- The only entry of a mapping. -/
def pairSlot (g : Graph) (id : NodeId) : Except Defect (Slot × Slot) :=
  match g.node id with
  | .mapping _ [e] => do return (← g.slot e.1, ← g.slot e.2)
  | _ => .error .rejected

/-- What a container holds; its node has the form that its tag asks for. -/
def shape (g : Graph) (id : NodeId) : Except Defect Shape :=
  match g.tag id, g.node id with
  | .sequence, .sequence _ items => do return .seq (← items.mapM g.slot)
  | .orderedMap, .sequence _ items | .pairs, .sequence _ items => do
    return .pairs (← items.mapM g.pairSlot)
  | .mapping, .mapping _ entries => do return .map (← entries.mapM g.entrySlot)
  | .set, .mapping _ entries => do return .set (← entries.mapM g.entrySlot)
  | _, _ => .error .rejected

/-- Whether a container is read entry by entry, so that its merge entries are replaced. -/
def isKeyed (g : Graph) (id : NodeId) : Bool := g.tag id = .mapping || g.tag id = .set

/-- What a container holds, after its merge entries have been replaced. -/
def expand (g : Graph) (id : NodeId) : Except Defect (Graph × Shape) := do
  let g ← if g.isKeyed id then g.flatten id else pure g
  return (g, ← g.shape id)

/-- The containers of the document at `root`, the slot of the root, and the graph without merge
entries. -/
def dataHeap (g : Graph) (root : NodeId) : Except Defect (Graph × Heap × Slot) := do
  let start ← g.slot root
  let (g, heap) ← Heap.ofSlot expand g start
  return (g, heap, start)

end PipelineManifest.Yaml.Graph
