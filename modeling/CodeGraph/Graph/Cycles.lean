import CodeGraph.Graph.Basic

/-!
# Cycles

The vertices of a graph are its nodes and the ends of its edges. A vertex is cyclic if a path of
one or more edges leads from it back to it; two cyclic vertices belong together if each reaches the
other. `PropertyGraph.cyclicComponents` lists these groups, each in increasing order, and
`PropertyGraph.hasCycles` tells whether there are any.
-/

namespace CodeGraph.PropertyGraph

/-- What edges lead to from a vertex. -/
def successors (g : PropertyGraph) (v : String) : List String :=
  (g.edgesFrom v).map (·.target)

/-- Adds to the visited vertices whatever the waiting ones lead to. Every step takes one waiting
vertex, and a vertex is expanded once. -/
def explore (successors : String → List String) :
    Nat → List String → List String → List String
  | 0, _, visited => visited
  | _ + 1, [], visited => visited
  | fuel + 1, v :: waiting, visited =>
    if visited.contains v then explore successors fuel waiting visited
    else explore successors fuel (successors v ++ waiting) (v :: visited)

/-- The vertices that a path of one or more edges leads to. -/
def reachableFrom (g : PropertyGraph) (v : String) : List String :=
  explore g.successors (2 * g.edges.size + 1) (g.successors v) []

/-- The vertices: nodes, and ends of edges whether or not they are nodes. -/
def vertices (g : PropertyGraph) : NameSet :=
  .ofNames (g.nodes.names ++ g.edgeList.flatMap fun e => [e.source, e.target])

/-- Whether some vertex leads back to itself. -/
def hasCycles (g : PropertyGraph) : Bool :=
  g.vertices.names.any fun v => (g.reachableFrom v).contains v

/-- The cyclic vertices, increasing, with what each of them reaches. -/
def cyclicVertices (g : PropertyGraph) : List (String × List String) :=
  (g.vertices.names.map fun v => (v, g.reachableFrom v)).filter fun p => p.2.contains p.1

/-- The groups of vertices that reach each other, each in increasing order and in the order of their
least vertices. -/
def cyclicComponents (g : PropertyGraph) : List (List String) :=
  let cyclic := g.cyclicVertices
  let groups := cyclic.map fun p =>
    (p.1, (cyclic.filter fun q => p.2.contains q.1 && q.2.contains p.1).map Prod.fst)
  (groups.filter fun p => p.2.head? == some p.1).map Prod.snd

end CodeGraph.PropertyGraph
