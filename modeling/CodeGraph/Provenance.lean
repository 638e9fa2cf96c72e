import CodeGraph.Json.Decode

/-!
# Provenance

Which extension produced a node or an edge, and when.
-/

namespace CodeGraph

/-- The producer of a node or an edge. -/
structure Provenance where
  /-- The domain of knowledge of the extension. -/
  domain : String
  /-- The name of the extension. -/
  extensionName : String
  /-- The version of the extension. -/
  version : String
  /-- Milliseconds since the epoch. -/
  timestamp : UInt64
  deriving DecidableEq, Repr, Inhabited

namespace Provenance

/-- The value of a provenance in a document. -/
def toJson (p : Provenance) : Json :=
  .object [("domain", .string p.domain), ("extension", .string p.extensionName),
    ("version", .string p.version), ("timestamp", .ofWord p.timestamp)]

def record : Json.Record Provenance where
  name := "Provenance"
  start := ⟨"", "", "", 0⟩
  fields := [
    .needed "domain" Json.readString fun x p => { p with domain := x },
    .needed "extension" Json.readString fun x p => { p with extensionName := x },
    .needed "version" Json.readString fun x p => { p with version := x },
    .needed "timestamp" Json.readWord fun x p => { p with timestamp := x }]

def read (o : Json.Origin) (v : Json.Outline) : Json.Decoded Provenance :=
  record.read o v

instance : Json.Form Provenance := ⟨toJson, read⟩

end Provenance

end CodeGraph
