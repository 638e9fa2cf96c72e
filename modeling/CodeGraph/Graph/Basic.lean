import CodeGraph.Edge
import CodeGraph.Graph.Metadata
import CodeGraph.Node

/-!
# The property graph

A graph holds its nodes by identifier, in increasing order, and its edges in the order in which
they were added. Two indices give the positions of the edges that leave and that enter an
identifier. An edge may lead to an identifier that no node has; such an edge is kept.

A node added under an identifier that is taken replaces the earlier node.

A graph is written down as a document: its metadata, its nodes and its edges in lists. A document may
list a node twice; a graph has it once.
-/

namespace CodeGraph

/-- A graph as it is written down. -/
structure GraphDocument where
  metadata : GraphMetadata
  nodes : List Node
  edges : List Edge
  deriving Inhabited

namespace GraphDocument

def toJson (d : GraphDocument) : Json :=
  .object [("metadata", d.metadata.toJson), ("nodes", .array (d.nodes.map Node.toJson)),
    ("edges", .array (d.edges.map Edge.toJson))]

def record : Json.Record GraphDocument where
  name := "GraphDocument"
  start := default
  fields := [
    .needed "metadata" GraphMetadata.read fun x d => { d with metadata := x },
    .needed "nodes" (Json.readList Node.read) fun x d => { d with nodes := x },
    .needed "edges" (Json.readList Edge.read) fun x d => { d with edges := x }]

def read (o : Json.Origin) (v : Json.Outline) : Json.Decoded GraphDocument :=
  record.read o v

instance : Json.Form GraphDocument := ⟨toJson, read⟩

end GraphDocument

/-- A graph of typed nodes and edges. -/
structure PropertyGraph where
  metadata : GraphMetadata
  nodes : NameMap Node := .empty
  edges : Array Edge := #[]
  /-- The positions of the edges that leave an identifier. -/
  outgoing : NameMap (Array Nat) := .empty
  /-- The positions of the edges that enter an identifier. -/
  incoming : NameMap (Array Nat) := .empty
  deriving Inhabited

namespace PropertyGraph

/-- The graph without nodes and edges. -/
def new (m : GraphMetadata) : PropertyGraph :=
  { metadata := m }

def id (g : PropertyGraph) : String :=
  g.metadata.id

/-! ## Building -/

/-- Adds a node, replacing one of the same identifier. -/
def insertNode (g : PropertyGraph) (n : Node) : PropertyGraph :=
  { g with nodes := g.nodes.insert n.id n }

/-- Adds a position under a name. -/
def notePosition (index : NameMap (Array Nat)) (name : String) (position : Nat) :
    NameMap (Array Nat) :=
  index.insert name (((index.get? name).getD #[]).push position)

/-- Adds an edge at the end. -/
def pushEdge (g : PropertyGraph) (e : Edge) : PropertyGraph :=
  { g with
    edges := g.edges.push e
    outgoing := notePosition g.outgoing e.source g.edges.size
    incoming := notePosition g.incoming e.target g.edges.size }

def insertNodes (g : PropertyGraph) (ns : List Node) : PropertyGraph :=
  ns.foldl insertNode g

def pushEdges (g : PropertyGraph) (es : List Edge) : PropertyGraph :=
  es.foldl pushEdge g

def ofDocument (d : GraphDocument) : PropertyGraph :=
  ((new d.metadata).insertNodes d.nodes).pushEdges d.edges

/-- The document of a graph: its nodes by identifier and its edges in order. -/
def toDocument (g : PropertyGraph) : GraphDocument :=
  ⟨g.metadata, g.nodes.values, g.edges.toList⟩

def toJson (g : PropertyGraph) : Json :=
  g.toDocument.toJson

/-- Reads a graph from a document. -/
def read (o : Json.Origin) (v : Json.Outline) : Json.Decoded PropertyGraph :=
  (GraphDocument.read o v).map ofDocument

/-! ## Nodes -/

def node? (g : PropertyGraph) (id : String) : Option Node :=
  g.nodes.get? id

/-- Whether there is a node of an identifier. -/
def containsNode (g : PropertyGraph) (id : String) : Bool :=
  g.nodes.contains id

/-- The nodes in increasing order of identifier. -/
def nodeList (g : PropertyGraph) : List Node :=
  g.nodes.values

def nodesOfType (g : PropertyGraph) (t : NodeType) : List Node :=
  g.nodeList.filter fun n => n.type == t

def nodesWithLabel (g : PropertyGraph) (label : String) : List Node :=
  g.nodeList.filter fun n => n.hasLabel label

/-- The nodes with one of several labels. -/
def nodesWithAny (g : PropertyGraph) (labels : List String) : List Node :=
  g.nodeList.filter fun n => labels.any n.hasLabel

/-- The nodes with all of several labels. -/
def nodesWithAll (g : PropertyGraph) (labels : List String) : List Node :=
  g.nodeList.filter fun n => labels.all n.hasLabel

/-- The nodes that extensions of a domain produced. -/
def nodesOfDomain (g : PropertyGraph) (domain : String) : List Node :=
  g.nodeList.filter fun n => n.domain? == some domain

def labels (g : PropertyGraph) : NameSet :=
  .ofNames (g.nodeList.flatMap fun n => n.labels.names)

def domains (g : PropertyGraph) : NameSet :=
  .ofNames (g.nodeList.filterMap Node.domain?)

/-- Counts one more of a type. The counts stand in the order of their types. -/
def countOne (t : NodeType) : List (NodeType × Nat) → List (NodeType × Nat)
  | [] => [(t, 1)]
  | (u, n) :: rest =>
    if t = u then (u, n + 1) :: rest
    else if t.position < u.position then (t, 1) :: (u, n) :: rest
    else (u, n) :: countOne t rest

/-- The types of the nodes with the number of nodes of each. -/
def typeCounts (g : PropertyGraph) : List (NodeType × Nat) :=
  g.nodeList.foldl (fun counts n => countOne n.type counts) []

/-! ## Edges -/

/-- The edges in the order in which they were added. -/
def edgeList (g : PropertyGraph) : List Edge :=
  g.edges.toList

/-- The edges at the positions that an index gives for a name. -/
def edgesAt (g : PropertyGraph) (index : NameMap (Array Nat)) (name : String) : List Edge :=
  ((index.get? name).getD #[]).toList.filterMap fun i => g.edges[i]?

/-- The edges that leave an identifier. -/
def edgesFrom (g : PropertyGraph) (id : String) : List Edge :=
  g.edgesAt g.outgoing id

/-- The edges that enter an identifier. -/
def edgesTo (g : PropertyGraph) (id : String) : List Edge :=
  g.edgesAt g.incoming id

def edgesOfType (g : PropertyGraph) (t : EdgeType) : List Edge :=
  g.edgeList.filter fun e => e.type == t

/-- The edges that lead to an identifier no node has. -/
def danglingEdges (g : PropertyGraph) : List Edge :=
  g.edgeList.filter fun e => !g.containsNode e.target

def stats (g : PropertyGraph) : GraphStats where
  nodeCount := UInt64.ofNat g.nodes.size
  edgeCount := UInt64.ofNat g.edges.size
  averageDegree :=
    if g.nodes.size = 0 then 0.0 else Float.ofNat g.edges.size / Float.ofNat g.nodes.size

instance : Json.Form PropertyGraph := ⟨toJson, read⟩

end PropertyGraph

end CodeGraph
