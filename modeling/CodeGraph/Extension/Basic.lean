import CodeGraph.Extension.FileFacts
import CodeGraph.Identity
import CodeGraph.Ignore.Personal
import CodeGraph.Query
import CodeGraph.Volume.Access

/-!
# Extensions

An extension contributes one domain of knowledge to a graph, in two phases. Parsing sees the root
and the settings of the extension and gives the nodes and edges that it owns. Linking comes after
all extensions have parsed; it sees all nodes and gives edges, which may lead from one domain into
another.

Both phases are programs over the session of a run, and both may fail. A failure leaves the session
as the phase left it, and says nothing about what other extensions do.
-/

namespace CodeGraph

/-! ## Descriptions -/

/-- What identifies an extension. -/
structure ExtensionInfo where
  /-- The name, under which its settings are found too. -/
  name : String
  version : String
  /-- The domain of knowledge that it contributes. -/
  domain : String
  deriving DecidableEq, Repr, Inhabited

namespace ExtensionInfo

/-- The producer that is named on what the extension gives. -/
def provenance (i : ExtensionInfo) (timestamp : UInt64) : Provenance :=
  ⟨i.domain, i.name, i.version, timestamp⟩

def toJson (i : ExtensionInfo) : Json :=
  .object [("name", .string i.name), ("version", .string i.version), ("domain", .string i.domain)]

def record : Json.Record ExtensionInfo where
  name := "ExtensionMetadata"
  start := default
  fields := [
    .needed "name" Json.readString fun x i => { i with name := x },
    .needed "version" Json.readString fun x i => { i with version := x },
    .needed "domain" Json.readString fun x i => { i with domain := x }]

instance : Json.Form ExtensionInfo := ⟨toJson, record.read⟩

end ExtensionInfo

/-- A type of nodes that an extension may give. -/
structure NodeTypeInfo where
  type : NodeType
  displayName : String
  /-- The labels of such nodes. -/
  labels : List String := []
  deriving Inhabited

namespace NodeTypeInfo

/-- The object of a type of nodes. -/
def toJson (i : NodeTypeInfo) : Json :=
  .object [("node_type", i.type.toJson), ("display_name", .string i.displayName),
    ("labels", .ofStrings i.labels)]

/-- How a type of nodes is read. -/
def record : Json.Record NodeTypeInfo where
  name := "NodeTypeInfo"
  start := default
  fields := [
    .needed "node_type" NodeType.read fun x i => { i with type := x },
    .needed "display_name" Json.readString fun x i => { i with displayName := x },
    .defaulted "labels" (Json.readList Json.readString) fun x i => { i with labels := x }]

instance : Json.Form NodeTypeInfo := ⟨toJson, record.read⟩

end NodeTypeInfo

/-- A type of edges that an extension may give. -/
structure EdgeTypeInfo where
  type : EdgeType
  displayName : String
  deriving Inhabited

namespace EdgeTypeInfo

/-- The object of a type of edges. -/
def toJson (i : EdgeTypeInfo) : Json :=
  .object [("edge_type", i.type.toJson), ("display_name", .string i.displayName)]

/-- How a type of edges is read. -/
def record : Json.Record EdgeTypeInfo where
  name := "EdgeTypeInfo"
  start := default
  fields := [
    .needed "edge_type" EdgeType.read fun x i => { i with type := x },
    .needed "display_name" Json.readString fun x i => { i with displayName := x }]

instance : Json.Form EdgeTypeInfo := ⟨toJson, record.read⟩

end EdgeTypeInfo

/-! ## Phases -/

/-- How a phase of an extension ends without a result. -/
inductive PhaseFailure where
  /-- It gives up, for reasons that lead from the outermost to the root. -/
  | failed (reasons : List String)
  /-- It breaks off in the middle, perhaps with a text. -/
  | brokeOff (text : Option String)
  deriving DecidableEq, Repr

def PhaseFailure.message : PhaseFailure → String
  | .failed reasons => ": ".intercalate reasons
  | .brokeOff (some text) => "panicked: " ++ text
  | .brokeOff none => "panicked"

/-- What the phases of all extensions work on. -/
structure Session where
  ids : IdGenerator
  /-- Milliseconds since the epoch. -/
  clock : UInt64 := 0
  drive : Drive := default
  /-- The facts about files that have been found before, if they are kept. -/
  facts : Option (Cache.LayeredCache FileFacts) := none
  /-- Who makes the graph. -/
  person : Ignore.Person := {}

/-- Programs of phases. -/
abbrev PhaseM := ExceptT PhaseFailure (StateM Session)

namespace PhaseM

def nodeId (t : NodeType) (name : String) (filePath : Option String) : PhaseM String :=
  modifyGet fun s =>
    let (id, ids) := s.ids.nodeId t name filePath
    (id, { s with ids })

def edgeId (t : EdgeType) (source target : String) : PhaseM String :=
  modifyGet fun s =>
    let (id, ids) := s.ids.edgeId t source target
    (id, { s with ids })

/-- Carries out an operation on files. -/
def onFiles {α : Type} (op : FileM α) : PhaseM α :=
  modifyGet fun s =>
    let (a, drive) := op.run s.drive
    (a, { s with drive })

end PhaseM

/-- What parsing sees. -/
structure ParseContext where
  root : String
  /-- The settings of the extension, null without any. -/
  settings : Json

/-- What linking sees. -/
structure LinkContext where
  root : String
  /-- The settings of the extension, null without any. -/
  settings : Json
  /-- All nodes, by identifier. -/
  nodes : GraphQuery

/-- What parsing gives. -/
structure ExtensionOutput where
  nodes : List Node := []
  edges : List Edge := []
  deriving Inhabited

/-- Whether there is nothing in an output. -/
def ExtensionOutput.isEmpty (o : ExtensionOutput) : Bool :=
  o.nodes.isEmpty && o.edges.isEmpty

/-- An extension. -/
structure Extension where
  info : ExtensionInfo
  nodeTypes : List NodeTypeInfo := []
  edgeTypes : List EdgeTypeInfo := []
  /-- Whether parsing has to wait for files; side by side with others it comes last. -/
  waits : Bool := false
  parse : ParseContext → PhaseM ExtensionOutput
  link : LinkContext → PhaseM (List Edge) := fun _ => pure []

/-- Settings as a value of a type, the default if there are none, or what is wrong with them. -/
def Extension.settings {α : Type} (r : Json.Record α) (v : Json) : Except String α :=
  match v with
  | .null => .ok r.start
  | v => (Json.decodeValue r.read v).mapError fun f => f.message Json.doubleText

end CodeGraph
