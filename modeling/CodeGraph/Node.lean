import CodeGraph.Provenance
import CodeGraph.Vocabulary

/-!
# Nodes

A node has an identifier, a type, a name, labels and metadata. The common fields of the metadata
are typed; whatever else an extension records is kept by name in `extra` and shares one object with
the typed fields in a document. A name of a typed field always means that field
(`NodeMetadata.get?`).
-/

namespace CodeGraph

/-- What is known of a node besides its type and name. -/
structure NodeMetadata where
  /-- The file of the entity, relative to the root. -/
  filePath : Option String := none
  startLine : Option UInt64 := none
  endLine : Option UInt64 := none
  /-- The size in bytes. -/
  size : Option UInt64 := none
  language : Option String := none
  /-- Whether the entity is visible outside its module. -/
  isExported : Option Bool := none
  /-- What else the extension records. -/
  extra : NameMap Json := .empty
  deriving Inhabited

namespace NodeMetadata

/-- Adds a member unless its value is not set. -/
private def member (name : String) (v : Option Json) : List (String × Json) :=
  v.toList.map fun v => (name, v)

/-- The members of the typed fields that are set. -/
def typedMembers (m : NodeMetadata) : List (String × Json) :=
  member "file_path" (m.filePath.map .string) ++
  member "start_line" (m.startLine.map .ofWord) ++
  member "end_line" (m.endLine.map .ofWord) ++
  member "size" (m.size.map .ofWord) ++
  member "language" (m.language.map .string) ++
  member "is_exported" (m.isExported.map .bool)

/-- The object of the metadata: the typed fields that are set, then the others. -/
def toJson (m : NodeMetadata) : Json :=
  .object (m.typedMembers ++ m.extra.entries)

def isEmpty (m : NodeMetadata) : Bool :=
  m.filePath.isNone && m.startLine.isNone && m.endLine.isNone && m.size.isNone &&
    m.language.isNone && m.isExported.isNone && m.extra.isEmpty

/-- The value of a field by its name in documents. -/
def get? (m : NodeMetadata) (key : String) : Option Json :=
  match key with
  | "file_path" => m.filePath.map .string
  | "start_line" => m.startLine.map .ofWord
  | "end_line" => m.endLine.map .ofWord
  | "size" => m.size.map .ofWord
  | "language" => m.language.map .string
  | "is_exported" => m.isExported.map .bool
  | _ => m.extra.get? key

def withExtra (m : NodeMetadata) (key : String) (v : Json) : NodeMetadata :=
  { m with extra := m.extra.insert key v }

/-- How the typed fields are read. -/
def record : Json.Record NodeMetadata where
  name := "NodeMetadata"
  start := {}
  fields := [
    .defaulted "file_path" (Json.readOptional Json.readString) fun x m => { m with filePath := x },
    .defaulted "start_line" (Json.readOptional Json.readSize) fun x m => { m with startLine := x },
    .defaulted "end_line" (Json.readOptional Json.readSize) fun x m => { m with endLine := x },
    .defaulted "size" (Json.readOptional Json.readWord) fun x m => { m with size := x },
    .defaulted "language" (Json.readOptional Json.readString) fun x m => { m with language := x },
    .defaulted "is_exported" (Json.readOptional Json.readBool) fun x m =>
      { m with isExported := x }]

def read (o : Json.Origin) (v : Json.Outline) : Json.Decoded NodeMetadata :=
  record.readOpen (fun k v m => m.withExtra k v) o v

instance : Json.Form NodeMetadata := ⟨toJson, read⟩

end NodeMetadata

/-- A node of the graph. -/
structure Node where
  id : String
  type : NodeType
  name : String
  metadata : NodeMetadata := {}
  labels : NameSet := .empty
  provenance : Option Provenance := none
  deriving Inhabited

namespace Node

/-- Whether the node has a label. -/
def hasLabel (n : Node) (label : String) : Bool :=
  n.labels.contains label

/-- The domain of the extension that produced the node. -/
def domain? (n : Node) : Option String :=
  n.provenance.map (·.domain)

/-- The object of a node. Labels and provenance are left out when there are none. -/
def toJson (n : Node) : Json :=
  .object <|
    [("id", .string n.id), ("type", n.type.toJson), ("name", .string n.name),
      ("metadata", n.metadata.toJson)] ++
    (if n.labels.isEmpty then [] else [("labels", .ofStrings n.labels.names)]) ++
    (n.provenance.toList.map fun p => ("source", p.toJson))

def record : Json.Record Node where
  name := "Node"
  start := default
  fields := [
    .needed "id" Json.readString fun x n => { n with id := x },
    .needed "type" NodeType.read fun x n => { n with type := x },
    .needed "name" Json.readString fun x n => { n with name := x },
    .defaulted "metadata" NodeMetadata.read fun x n => { n with metadata := x },
    .defaulted "labels" (Json.readList Json.readString) fun x n =>
      { n with labels := .ofNames x },
    .defaulted "source" (Json.readOptional Provenance.read) fun x n =>
      { n with provenance := x }]

def read (o : Json.Origin) (v : Json.Outline) : Json.Decoded Node :=
  record.read o v

instance : Json.Form Node := ⟨toJson, read⟩

end Node

end CodeGraph
