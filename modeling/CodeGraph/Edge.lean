import CodeGraph.Provenance
import CodeGraph.Vocabulary

/-!
# Edges

An edge leads from one identifier to another. Its ends need not be nodes of the graph. The weight
is a double of any kind; an infinite weight or a weight that is not a number is null in a document,
and null is not read back as a weight.
-/

namespace CodeGraph

/-- What is known of an edge besides its type and ends. -/
structure EdgeMetadata where
  /-- The strength of the relationship. -/
  weight : Float := 1.0
  /-- The line that expresses the relationship. -/
  line : Option UInt64 := none
  /-- What else the extension records. -/
  extra : NameMap Json := .empty

namespace EdgeMetadata

instance : Inhabited EdgeMetadata := ⟨{}⟩

/-- The object of the metadata: the weight, the line if it is set, then the others. -/
def toJson (m : EdgeMetadata) : Json :=
  .object <|
    [("weight", .ofDouble m.weight)] ++ (m.line.toList.map fun n => ("line", .ofWord n)) ++
      m.extra.entries

def withExtra (m : EdgeMetadata) (key : String) (v : Json) : EdgeMetadata :=
  { m with extra := m.extra.insert key v }

/-- How the typed fields are read. -/
def record : Json.Record EdgeMetadata where
  name := "EdgeMetadata"
  start := {}
  fields := [
    .defaulted "weight" Json.readDouble fun x m => { m with weight := x },
    .defaulted "line" (Json.readOptional Json.readSize) fun x m => { m with line := x }]

def read (o : Json.Origin) (v : Json.Outline) : Json.Decoded EdgeMetadata :=
  record.readOpen (fun k v m => m.withExtra k v) o v

instance : Json.Form EdgeMetadata := ⟨toJson, read⟩

end EdgeMetadata

/-- An edge of the graph. -/
structure Edge where
  id : String
  type : EdgeType
  source : String
  target : String
  metadata : EdgeMetadata := {}
  provenance : Option Provenance := none
  deriving Inhabited

namespace Edge

/-- The object of an edge. The provenance is left out when there is none. -/
def toJson (e : Edge) : Json :=
  .object <|
    [("id", .string e.id), ("type", e.type.toJson), ("from", .string e.source),
      ("to", .string e.target), ("metadata", e.metadata.toJson)] ++
    (e.provenance.toList.map fun p => ("source", p.toJson))

def record : Json.Record Edge where
  name := "Edge"
  start := default
  fields := [
    .needed "id" Json.readString fun x e => { e with id := x },
    .needed "type" EdgeType.read fun x e => { e with type := x },
    .needed "from" Json.readString fun x e => { e with source := x },
    .needed "to" Json.readString fun x e => { e with target := x },
    .defaulted "metadata" EdgeMetadata.read fun x e => { e with metadata := x },
    .defaulted "source" (Json.readOptional Provenance.read) fun x e =>
      { e with provenance := x }]

def read (o : Json.Origin) (v : Json.Outline) : Json.Decoded Edge :=
  record.read o v

instance : Json.Form Edge := ⟨toJson, read⟩

end Edge

end CodeGraph
