import PipelineManifest.Yaml.Tag

/-!
# `PipelineManifest.Yaml.Node.Basic`: the graph of the nodes of a document

A document is a graph of nodes. An alias refers to the node that its anchor names, so a node
may be reached from several places, also from inside itself.

* `Node`: a scalar as it is written, a sequence or a mapping, with its tag.
* `Graph`: nodes, named by their positions.
-/

set_option autoImplicit false

namespace PipelineManifest.Yaml

/-- The name of a node. -/
abbrev NodeId := Nat

/-- A node of a document. -/
inductive Node where
  | scalar (tag : Tag) (text : String)
  | sequence (tag : Tag) (items : List NodeId)
  | mapping (tag : Tag) (entries : List (NodeId × NodeId))
  deriving DecidableEq, Repr, Inhabited

namespace Node

/-- The tag of a node. -/
def tag : Node → Tag
  | scalar t _ | sequence t _ | mapping t _ => t

/-- A node with another tag. -/
def withTag (t : Tag) : Node → Node
  | scalar _ text => scalar t text
  | sequence _ items => sequence t items
  | mapping _ entries => mapping t entries

end Node

/-- The nodes of a document. -/
structure Graph where
  nodes : Array Node
  deriving Inhabited

namespace Graph

/-- The graph without nodes. -/
def empty : Graph := ⟨#[]⟩

/-- The number of nodes. -/
def size (g : Graph) : Nat := g.nodes.size

/-- The node of a name; a name that is not in use names an empty text. -/
def node (g : Graph) (id : NodeId) : Node := g.nodes.getD id (.scalar .text "")

/-- The tag of the node of a name. -/
def tag (g : Graph) (id : NodeId) : Tag := (g.node id).tag

/-- The graph with one node more, and its name. -/
def add (g : Graph) (n : Node) : NodeId × Graph := (g.nodes.size, ⟨g.nodes.push n⟩)

/-- The graph with one node replaced. -/
def set (g : Graph) (id : NodeId) (n : Node) : Graph := ⟨g.nodes.setIfInBounds id n⟩

@[simp] theorem size_set (g : Graph) (id : NodeId) (n : Node) : (g.set id n).size = g.size := by
  simp [size, set]

@[simp] theorem size_add (g : Graph) (n : Node) : (g.add n).2.size = g.size + 1 := by
  simp [size, add]

end Graph

end PipelineManifest.Yaml
