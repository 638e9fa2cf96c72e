import CodeGraph.Cache.Disk
import CodeGraph.Configuration.Loader
import CodeGraph.Graph.Cycles
import CodeGraph.Pipeline.Basic
import CodeGraph.Query

/-!
# What commands print

Each answer of a command has a form for people and a form as JSON. Failures are printed with what
they were caused by. Tables have columns: texts filled up with spaces to a width, which counts
characters. A text that is wider stays as it is.
-/

namespace CodeGraph.Text

/-- A text at the left of its column. -/
def leftIn (width : Nat) (s : String) : String :=
  s ++ String.ofList (List.replicate (width - s.length) ' ')

/-- A text at the right of its column. -/
def rightIn (width : Nat) (s : String) : String :=
  String.ofList (List.replicate (width - s.length) ' ') ++ s

end CodeGraph.Text

namespace CodeGraph.CommandLine

/-- A text with a line feed after each of its lines. -/
def lines (l : List String) : String :=
  String.join (l.map (· ++ "\n"))

/-- A value as indented JSON on lines of its own. -/
def jsonLines (v : Json) : String :=
  lines [v.pretty 0]

/-! ## Failures -/

/-- A text whose lines after the first are indented. -/
def indent (width : Nat) (s : String) : String :=
  ("\n" ++ String.ofList (List.replicate width ' ')).intercalate (s.splitOn "\n")

/-- A failure with its causes, the outermost first. Causes are numbered if there are several. -/
def failureText : List String → String
  | [] => "Error: "
  | [message] => "Error: " ++ message
  | [message, cause] => "Error: " ++ message ++ "\n\nCaused by:\n    " ++ indent 4 cause
  | message :: causes =>
    "Error: " ++ message ++ "\n\nCaused by:" ++
      String.join (causes.zipIdx.map fun (cause, n) =>
        "\n" ++ Text.rightIn 5 (toString n) ++ ": " ++ indent 7 cause)

/-! ## Making a graph -/

/-- What came of making a graph. -/
structure BuildSummary where
  graph : PropertyGraph
  report : Report
  /-- How the cache has been used, if there is one. -/
  cache : Option Cache.LayeredStats

namespace BuildSummary

def toJson (s : BuildSummary) : Json :=
  .object [
    ("graph_id", .string s.graph.id),
    ("codebase_id", .string s.graph.metadata.codebase),
    ("stats", s.graph.stats.toJson),
    ("domains", .ofStrings s.graph.domains.names),
    ("contributions", .array (s.report.contributions.map (·.toJson))),
    ("failures", .array (s.report.failures.map (·.toJson))),
    ("cache", (s.cache.map (·.toJson)).getD .null)]

def contributionLine (c : Contribution) : String :=
  "  " ++ Text.leftIn 14 c.extensionName ++ " " ++ Text.rightIn 6 (toString c.nodes) ++ " nodes " ++
    Text.rightIn 6 (toString c.parseEdges) ++ " parse edges " ++
    Text.rightIn 6 (toString c.linkEdges) ++ " link edges"

def failureLine (f : FailedPhase) : String :=
  "  ! " ++ f.extensionName ++ " failed during " ++ f.phase.name ++ ": " ++ f.message

def cacheLine (s : Cache.LayeredStats) : String :=
  "Cache:   " ++ toString s.memoryHits.toNat ++ " memory hits, " ++ toString s.diskHits.toNat ++
    " disk hits, " ++ toString s.misses.toNat ++ " misses (" ++
    Decimal.fixed 0 (s.hitRate * 100.0) ++ "% hit rate)"

def text (s : BuildSummary) : String :=
  let stats := s.graph.stats
  let domains := s.graph.domains.names
  lines <|
    ["Graph:   " ++ s.graph.id,
      "Nodes:   " ++ toString stats.nodeCount ++ "  Edges: " ++ toString stats.edgeCount ++
        "  Avg degree: " ++ Decimal.fixed 2 stats.averageDegree] ++
    (if domains.isEmpty then [] else ["Domains: " ++ ", ".intercalate domains]) ++
    [""] ++ s.report.contributions.map contributionLine ++ s.report.failures.map failureLine ++
    (s.cache.toList.flatMap fun c => ["", cacheLine c])

end BuildSummary

/-! ## Looking at a graph -/

def historyText (directory : String) (l : List GraphMetadata) : String :=
  if l.isEmpty then lines ["No graphs stored in " ++ directory]
  else lines (l.map fun m =>
    m.id ++ "  " ++ toString m.createdAt.toNat ++ "  [" ++ ", ".intercalate m.extensionNames ++
      "]  " ++ m.codebase)

def nodeJson (g : PropertyGraph) (n : Node) (id : String) : Json :=
  .object [("node", n.toJson), ("outgoing", .array ((g.edgesFrom id).map Edge.toJson)),
    ("incoming", .array ((g.edgesTo id).map Edge.toJson))]

/-- A node with its edges, for people. -/
def nodeText (g : PropertyGraph) (n : Node) (id : String) : String :=
  lines <|
    [n.name ++ " (" ++ n.type.name ++ ")", "  id: " ++ n.id] ++
    (n.provenance.toList.map fun p =>
      "  from: " ++ p.extensionName ++ " " ++ p.version ++ " [" ++ p.domain ++ "]") ++
    (if n.labels.isEmpty then [] else ["  labels: " ++ ", ".intercalate n.labels.names]) ++
    ((g.edgesFrom id).map fun e => "  --" ++ e.type.name ++ "--> " ++ e.target) ++
    (g.edgesTo id).map fun e => "  <--" ++ e.type.name ++ "-- " ++ e.source

/-- The first nodes of a selection of some size, for people. -/
def selectionText (shown : List Node) (size : Nat) : String :=
  lines <|
    (shown.map fun n => Text.leftIn 20 n.id ++ " " ++ Text.leftIn 14 n.type.name ++ " " ++
      n.metadata.filePath.getD n.name) ++
    (if shown.length < size then
      ["... " ++ toString (size - shown.length) ++ " more (use --limit)"] else []) ++
    [toString size ++ " matching node(s)"]

def overviewJson (g : PropertyGraph) : Json :=
  .object [
    ("id", .string g.id),
    ("codebase_id", .string g.metadata.codebase),
    ("created_at", .ofWord g.metadata.createdAt),
    ("extensions", .ofStrings g.metadata.extensionNames),
    ("stats", g.stats.toJson),
    ("types", .array (g.typeCounts.map fun (t, n) => .array [.string t.name, .ofNat n])),
    ("domains", .ofStrings g.domains.names),
    ("dangling_edges", .ofNat g.danglingEdges.length),
    ("has_cycles", .bool g.hasCycles)]

/-- An overview of a graph, for people. -/
def overviewText (g : PropertyGraph) : String :=
  lines <|
    ["Graph Statistics", "================", "",
      "Graph:      " ++ g.id,
      "Codebase:   " ++ g.metadata.codebase,
      "Extensions: " ++ ", ".intercalate g.metadata.extensionNames,
      "Nodes:      " ++ toString g.stats.nodeCount,
      "Edges:      " ++ toString g.stats.edgeCount,
      "Domains:    " ++ ", ".intercalate g.domains.names,
      "Dangling:   " ++ toString g.danglingEdges.length,
      "Cycles:     " ++ (if g.hasCycles then "yes" else "no"), ""] ++
    g.typeCounts.map fun (t, n) => "  " ++ Text.leftIn 16 t.name ++ " " ++ toString n

/-! ## The cache -/

/-- A number of bytes in the largest of four units that leaves it at least one, with one place. -/
def sizeText (bytes : UInt64) : String :=
  let rec scale (x : Float) : List String → String
    | [] => Decimal.fixed 1 x
    | [u] => Decimal.fixed 1 x ++ " " ++ u
    | u :: v :: rest =>
      if 1024.0 ≤ x then scale (x / 1024.0) (v :: rest) else Decimal.fixed 1 x ++ " " ++ u
  if bytes < 1024 then toString bytes.toNat ++ " B"
  else scale (bytes.toFloat / 1024.0) ["KB", "MB", "GB"]

def cacheJson (directory : String) (useDisk : Bool) (s : Cache.DiskStats) : Json :=
  let members := match s.toJson with
    | .object ms => ms
    | _ => []
  .object ([("directory", .string directory), ("enabled", .bool useDisk)] ++ members)

/-- What the disk layer holds, for people. -/
def cacheText (directory : String) (useDisk : Bool) (s : Cache.DiskStats) : String :=
  lines <|
    ["Cache:   " ++ directory] ++
    (if useDisk then [] else ["         (disabled by cache.enable_file_cache)"]) ++
    ["Entries: " ++ toString s.entries,
      "Size:    " ++ sizeText s.totalSize ++ " / " ++ sizeText s.maxSize]

/-! ## Configuration files -/

/-- A configuration file and whether it is there. -/
structure ConfigFile where
  path : String
  isThere : Bool

def pathsJson (above : Option ConfigFile) (here : ConfigFile) : Json :=
  .object [
    ("global", (above.map fun f => Json.string f.path).getD .null),
    ("local", .string here.path),
    ("global_exists", .bool (above.any (·.isThere))),
    ("local_exists", .bool here.isThere)]

def pathsText (above : Option ConfigFile) (here : ConfigFile) : String :=
  let shown (f : ConfigFile) :=
    f.path ++ " (" ++ (if f.isThere then "exists" else "not found") ++ ")"
  lines [
    "Configuration Paths", "===================", "",
    match above with
      | some f => "Global: " ++ shown f
      | none => "Global: not available (no home directory)",
    "Local:  " ++ shown here]

end CodeGraph.CommandLine
