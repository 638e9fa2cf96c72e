import CodeGraph.Graph.Basic

/-!
# Building a graph

A builder collects the nodes and edges of one run. It is idle until it is started, and again once
the graph is built; everything but starting fails while it is idle.
-/

namespace CodeGraph

/-- Why a builder refuses. -/
inductive BuilderError where
  /-- Nothing has been started. -/
  | idle
  deriving DecidableEq, Repr

def BuilderError.message : BuilderError → String
  | .idle => "graph builder not initialized: call start() first"

/-- A builder, with the graph in progress. -/
structure GraphBuilder where
  graph? : Option PropertyGraph := none

namespace GraphBuilder

/-- A builder that has not been started. -/
def new : GraphBuilder := {}

/-- Opens an empty graph; one in progress is dropped. -/
def start (_ : GraphBuilder) (m : GraphMetadata) : GraphBuilder :=
  ⟨some (.new m)⟩

/-- Whether a graph is in progress. -/
def isStarted (b : GraphBuilder) : Bool :=
  b.graph?.isSome

def modify (b : GraphBuilder) (f : PropertyGraph → PropertyGraph) :
    Except BuilderError GraphBuilder :=
  match b.graph? with
  | some g => .ok ⟨some (f g)⟩
  | none => .error .idle

/-- Adds a node, replacing one of the same identifier. -/
def addNode (b : GraphBuilder) (n : Node) : Except BuilderError GraphBuilder :=
  b.modify (·.insertNode n)

def addNodes (b : GraphBuilder) (ns : List Node) : Except BuilderError GraphBuilder :=
  b.modify (·.insertNodes ns)

/-- Adds an edge; its ends are not checked. -/
def addEdge (b : GraphBuilder) (e : Edge) : Except BuilderError GraphBuilder :=
  b.modify (·.pushEdge e)

def addEdges (b : GraphBuilder) (es : List Edge) : Except BuilderError GraphBuilder :=
  b.modify (·.pushEdges es)

/-- Notes an extension as a contributor. -/
def recordExtension (b : GraphBuilder) (name : String) : Except BuilderError GraphBuilder :=
  b.modify fun g => { g with metadata := g.metadata.recordExtension name }

/-- The number of nodes so far. -/
def nodeCount (b : GraphBuilder) : Nat :=
  (b.graph?.map fun g => g.nodes.size).getD 0

/-- The number of edges so far. -/
def edgeCount (b : GraphBuilder) : Nat :=
  (b.graph?.map fun g => g.edges.size).getD 0

/-- Whether a node of an identifier has been added. -/
def containsNode (b : GraphBuilder) (id : String) : Bool :=
  (b.graph?.map fun g => g.containsNode id).getD false

def snapshot (b : GraphBuilder) : Except BuilderError (NameMap Node) :=
  match b.graph? with
  | some g => .ok g.nodes
  | none => .error .idle

/-- Gives out the graph; the builder is idle afterwards. -/
def build (b : GraphBuilder) : Except BuilderError (PropertyGraph × GraphBuilder) :=
  match b.graph? with
  | some g => .ok (g, ⟨none⟩)
  | none => .error .idle

end GraphBuilder

end CodeGraph
