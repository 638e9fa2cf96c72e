import CodeGraph.Graph.Basic

/-!
# Queries

A view of the nodes of a graph in increasing order of identifier, and the criteria that nodes are
selected by. Every criterion that is set has to hold.
-/

namespace CodeGraph

/-- What a node has to be. What is not set does not restrict. -/
structure Criteria where
  type : Option NodeType := none
  name : Option String := none
  /-- Labels that the node has to have, all of them. -/
  labels : List String := []
  domain : Option String := none
  /-- Values that fields of the metadata have to have. -/
  metadata : NameMap Json := .empty
  deriving Inhabited

namespace Criteria

/-- Whether a field of the metadata has a value. -/
def fieldIs (n : Node) (key : String) (expected : Json) : Bool :=
  match n.metadata.get? key with
  | some v => v.same expected
  | none => false

/-- Whether a node meets every criterion. -/
def holds (c : Criteria) (n : Node) : Bool :=
  c.type.all (· == n.type) &&
  c.name.all (· == n.name) &&
  c.labels.all n.hasLabel &&
  c.domain.all (fun d => n.domain? == some d) &&
  c.metadata.entries.all fun kv => fieldIs n kv.1 kv.2

end Criteria

/-- A view of the nodes of a graph. -/
structure GraphQuery where
  nodes : NameMap Node
  deriving Inhabited

namespace GraphQuery

/-- A view of all nodes of a graph, each under its own identifier. -/
def ofGraph (g : PropertyGraph) : GraphQuery :=
  ⟨.ofList (g.nodeList.map fun n => (n.id, n))⟩

def get? (q : GraphQuery) (id : String) : Option Node :=
  q.nodes.get? id

def ofType (q : GraphQuery) (t : NodeType) : List Node :=
  q.nodes.values.filter fun n => n.type == t

def withLabel (q : GraphQuery) (label : String) : List Node :=
  q.nodes.values.filter fun n => n.hasLabel label

/-- The nodes that extensions of a domain produced. -/
def ofDomain (q : GraphQuery) (domain : String) : List Node :=
  q.nodes.values.filter fun n => n.domain? == some domain

/-- The nodes that meet all criteria. -/
def find (q : GraphQuery) (c : Criteria) : List Node :=
  q.nodes.values.filter c.holds

/-- The first node that meets all criteria. -/
def findOne? (q : GraphQuery) (c : Criteria) : Option Node :=
  q.nodes.values.find? c.holds

def size (q : GraphQuery) : Nat :=
  q.nodes.size

def isEmpty (q : GraphQuery) : Bool :=
  q.nodes.isEmpty

end GraphQuery

end CodeGraph
