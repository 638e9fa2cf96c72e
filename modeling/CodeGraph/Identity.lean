import CodeGraph.Sha256
import CodeGraph.Vocabulary

/-!
# Identifiers of nodes and edges

An identifier is either the next number of its kind, which makes runs reproducible, or a digest of
what the node or edge is, which stays the same from run to run. The digest is taken of the parts
with a zero byte in front of each, so parts without zero bytes cannot run into each other.
-/

namespace CodeGraph

/-- How identifiers are made. -/
inductive IdStrategy where
  | sequential
  | contentHash
  deriving DecidableEq, Repr, Inhabited

namespace IdStrategy

def name : IdStrategy → String
  | .sequential => "sequential"
  | .contentHash => "content-hash"

def named : List (String × IdStrategy) :=
  [.sequential, .contentHash].map fun s => (s.name, s)

def toJson (s : IdStrategy) : Json :=
  .string s.name

/-- Reads a strategy by its name. -/
def read (o : Json.Origin) (v : Json.Outline) : Json.Decoded IdStrategy :=
  Json.readVariant named o v

instance : Json.Form IdStrategy := ⟨toJson, read⟩

end IdStrategy

/-- A generator of identifiers, with the numbers of nodes and edges it has named. -/
structure IdGenerator where
  strategy : IdStrategy
  nodes : UInt64 := 0
  edges : UInt64 := 0
  deriving DecidableEq, Repr, Inhabited

namespace IdGenerator

/-- The text whose digest names a node or an edge. -/
def preimage (kind : String) (parts : List String) : String :=
  kind ++ String.join (parts.map ("\x00" ++ ·))

/-- The name that a digest gives. -/
def hashed (kind : String) (parts : List String) : String :=
  kind ++ "_" ++
    String.ofList ((Sha256.hexOfString (preimage kind parts)).toList.take 16)

/-- The parts of the digest of a node. -/
def nodeParts (t : NodeType) (name : String) (filePath : Option String) : List String :=
  [t.name, filePath.getD "", name]

/-- The parts of the digest of an edge. -/
def edgeParts (t : EdgeType) (source target : String) : List String :=
  [t.name, source, target]

def nodeId (g : IdGenerator) (t : NodeType) (name : String) (filePath : Option String) :
    String × IdGenerator :=
  match g.strategy with
  | .sequential => ("node_" ++ toString (g.nodes + 1).toNat, { g with nodes := g.nodes + 1 })
  | .contentHash => (hashed "node" (nodeParts t name filePath), g)

def edgeId (g : IdGenerator) (t : EdgeType) (source target : String) : String × IdGenerator :=
  match g.strategy with
  | .sequential => ("edge_" ++ toString (g.edges + 1).toNat, { g with edges := g.edges + 1 })
  | .contentHash => (hashed "edge" (edgeParts t source target), g)

end IdGenerator

end CodeGraph
