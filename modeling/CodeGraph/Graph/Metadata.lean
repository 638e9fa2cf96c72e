import CodeGraph.Json.Decode
import CodeGraph.Sha256

/-!
# Metadata of a graph

What a graph is a graph of, when it was made and which extensions contributed to it. The
identifier of a graph is derived from the codebase and the time.
-/

namespace CodeGraph

/-- The metadata of a graph. -/
structure GraphMetadata where
  id : String
  /-- The codebase the graph was made from. -/
  codebase : String
  language : String
  /-- Milliseconds since the epoch. -/
  createdAt : UInt64
  /-- The extensions that contributed, in the order of their first contribution. -/
  extensionNames : List String := []
  deriving DecidableEq, Repr, Inhabited

namespace GraphMetadata

/-- The text whose digest identifies a graph. -/
def identity (codebase : String) (createdAt : UInt64) : String :=
  codebase ++ "\x00" ++ toString createdAt.toNat

/-- The identifier of the graph of a codebase at a time. -/
def identifier (codebase : String) (createdAt : UInt64) : String :=
  "graph_" ++ String.ofList ((Sha256.hexOfString (identity codebase createdAt)).toList.take 16)

/-- The metadata of a new graph of any languages. -/
def new (codebase : String) (createdAt : UInt64) : GraphMetadata :=
  ⟨identifier codebase createdAt, codebase, "multi", createdAt, []⟩

/-- Adds an extension unless it has contributed before. -/
def recordExtension (m : GraphMetadata) (name : String) : GraphMetadata :=
  if m.extensionNames.contains name then m
  else { m with extensionNames := m.extensionNames ++ [name] }

/-- The object of the metadata. Extensions are left out when there are none. -/
def toJson (m : GraphMetadata) : Json :=
  .object <|
    [("id", .string m.id), ("codebase_id", .string m.codebase), ("language", .string m.language),
      ("created_at", .ofWord m.createdAt)] ++
    (if m.extensionNames.isEmpty then [] else [("extensions", .ofStrings m.extensionNames)])

def record : Json.Record GraphMetadata where
  name := "GraphMetadata"
  start := default
  fields := [
    .needed "id" Json.readString fun x m => { m with id := x },
    .needed "codebase_id" Json.readString fun x m => { m with codebase := x },
    .needed "language" Json.readString fun x m => { m with language := x },
    .needed "created_at" Json.readWord fun x m => { m with createdAt := x },
    .defaulted "extensions" (Json.readList Json.readString) fun x m =>
      { m with extensionNames := x }]

def read (o : Json.Origin) (v : Json.Outline) : Json.Decoded GraphMetadata :=
  record.read o v

/-- Older graphs first, and of graphs of one time the one with the lesser identifier. -/
def precedes (a b : GraphMetadata) : Bool :=
  a.createdAt < b.createdAt || (a.createdAt == b.createdAt && a.id ≤ b.id)

instance : Json.Form GraphMetadata := ⟨toJson, read⟩

end GraphMetadata

/-- The size of a graph. -/
structure GraphStats where
  nodeCount : UInt64
  edgeCount : UInt64
  /-- Edges per node, and zero without nodes. -/
  averageDegree : Float

namespace GraphStats

instance : Inhabited GraphStats := ⟨⟨0, 0, 0.0⟩⟩

def toJson (s : GraphStats) : Json :=
  .object [("node_count", .ofWord s.nodeCount), ("edge_count", .ofWord s.edgeCount),
    ("average_degree", .ofDouble s.averageDegree)]

def record : Json.Record GraphStats where
  name := "GraphStats"
  start := default
  fields := [
    .needed "node_count" Json.readSize fun x s => { s with nodeCount := x },
    .needed "edge_count" Json.readSize fun x s => { s with edgeCount := x },
    .needed "average_degree" Json.readDouble fun x s => { s with averageDegree := x }]

def read (o : Json.Origin) (v : Json.Outline) : Json.Decoded GraphStats :=
  record.read o v

instance : Json.Form GraphStats := ⟨toJson, read⟩

end GraphStats

end CodeGraph
