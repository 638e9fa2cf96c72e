import CodeGraph.Identity
import CodeGraph.Toml.Decode
import CodeGraph.Toml.Printer

/-!
# Configuration

What a run is told: where its data goes, which extensions run and how, the bounds of the caches,
the settings of each extension, and how much is logged. Every part has a default, and a file speaks
only of what it changes.

The settings of an extension are a table that only the extension understands.
-/

namespace CodeGraph

namespace Configuration

/-- Where data is kept. -/
structure Storage where
  /-- The directory of the data. -/
  directory : String := ".codeloom"
  deriving DecidableEq, Repr, Inhabited

/-- Which extensions run, and how. -/
structure Pipeline where
  /-- The names of the extensions in their order. -/
  extensionNames : List String := ["filesystem", "test-files"]
  /-- Whether the extensions parse side by side; what they give is merged in their order. -/
  concurrent : Bool := false
  strategy : IdStrategy := .sequential
  deriving DecidableEq, Repr, Inhabited

/-- The bounds of the memory layer. -/
structure MemoryBounds where
  megabytes : UInt64 := 64
  maxItems : UInt64 := 10000
  /-- How long an entry lives; zero means for ever. -/
  ttlSeconds : UInt64 := 3600
  deriving DecidableEq, Repr, Inhabited

/-- The bounds of the disk layer. -/
structure DiskBounds where
  /-- The directory of the cache, unless it is in the directory of the data. -/
  directory : Option String := none
  megabytes : UInt64 := 512
  deriving DecidableEq, Repr, Inhabited

/-- The bounds of the caches. -/
structure Caching where
  /-- Whether results are kept on disk. -/
  useDisk : Bool := true
  memory : MemoryBounds := {}
  disk : DiskBounds := {}
  deriving DecidableEq, Repr, Inhabited

/-- How much is logged. -/
structure Logging where
  level : String := "info"
  deriving DecidableEq, Repr, Inhabited

end Configuration

open CodeGraph.Configuration in
/-- The whole configuration. -/
structure Configuration where
  storage : Storage := {}
  pipeline : Pipeline := {}
  caching : Caching := {}
  /-- The settings of extensions by their names. -/
  extensionSettings : NameMap Toml.Table := .empty
  logging : Logging := {}
  deriving Inhabited

namespace Configuration

/-! ## Reading -/

/-- How the place of the data is read. -/
def Storage.record : Json.Record Storage where
  name := "StorageConfig"
  start := {}
  fields := [.defaulted "loom_dir" Json.readPath fun x s => { s with directory := x }]

/-- How the choice of extensions is read. -/
def Pipeline.record : Json.Record Pipeline where
  name := "PipelineConfig"
  start := {}
  fields := [
    .defaulted "extensions" (Json.readList Json.readString) fun x p =>
      { p with extensionNames := x },
    .defaulted "concurrent_parse" Json.readBool fun x p => { p with concurrent := x },
    .defaulted "id_strategy" IdStrategy.read fun x p => { p with strategy := x }]

/-- How the bounds of the memory layer are read. -/
def MemoryBounds.record : Json.Record MemoryBounds where
  name := "MemoryCacheSettings"
  start := {}
  fields := [
    .defaulted "max_size_mb" Json.readWord fun x b => { b with megabytes := x },
    .defaulted "max_items" Json.readSize fun x b => { b with maxItems := x },
    .defaulted "ttl_secs" Json.readWord fun x b => { b with ttlSeconds := x }]

/-- How the bounds of the disk layer are read. -/
def DiskBounds.record : Json.Record DiskBounds where
  name := "FileCacheSettings"
  start := {}
  fields := [
    .defaulted "directory" (Json.readOptional Json.readPath) fun x b => { b with directory := x },
    .defaulted "max_size_mb" Json.readWord fun x b => { b with megabytes := x }]

/-- How the bounds of the caches are read. -/
def Caching.record : Json.Record Caching where
  name := "CacheSettings"
  start := {}
  fields := [
    .defaulted "enable_file_cache" Json.readBool fun x c => { c with useDisk := x },
    .defaulted "memory" MemoryBounds.record.read fun x c => { c with memory := x },
    .defaulted "file" DiskBounds.record.read fun x c => { c with disk := x }]

/-- How the amount of logging is read. -/
def Logging.record : Json.Record Logging where
  name := "LoggingConfig"
  start := {}
  fields := [.defaulted "level" Json.readString fun x l => { l with level := x }]

def record : Json.Record Configuration where
  name := "LoomConfig"
  start := {}
  fields := [
    .defaulted "storage" Storage.record.read fun x c => { c with storage := x },
    .defaulted "pipeline" Pipeline.record.read fun x c => { c with pipeline := x },
    .defaulted "cache" Caching.record.read fun x c => { c with caching := x },
    .defaulted "extensions" (Json.readMap Toml.readTable) fun x c =>
      { c with extensionSettings := x },
    .defaulted "logging" Logging.record.read fun x c => { c with logging := x }]

def read (o : Json.Origin) (v : Json.Outline) : Json.Decoded Configuration :=
  record.read o v

/-! ## Writing -/

/-- The settings of an extension in the order of writing. -/
def settingsEntries (t : Toml.Table) : Toml.Table :=
  Toml.arrangedEntries t

def toJson (c : Configuration) : Json :=
  .object [
    ("storage", .object [("loom_dir", .string c.storage.directory)]),
    ("pipeline", .object [
      ("extensions", .ofStrings c.pipeline.extensionNames),
      ("concurrent_parse", .bool c.pipeline.concurrent),
      ("id_strategy", c.pipeline.strategy.toJson)]),
    ("cache", .object [
      ("enable_file_cache", .bool c.caching.useDisk),
      ("memory", .object [
        ("max_size_mb", .ofWord c.caching.memory.megabytes),
        ("max_items", .ofWord c.caching.memory.maxItems),
        ("ttl_secs", .ofWord c.caching.memory.ttlSeconds)]),
      ("file", .object [
        ("directory", (c.caching.disk.directory.map Json.string).getD .null),
        ("max_size_mb", .ofWord c.caching.disk.megabytes)])]),
    ("extensions",
      .ofMap (c.extensionSettings.map fun _ t => (Toml.table (settingsEntries t)).toJson)),
    ("logging", .object [("level", .string c.logging.level)])]

/-- A 64-bit word as a settings value, unless it is too large for one. -/
def settingsWord? (n : UInt64) : Option Toml :=
  if n.toNat < Nat.pow 2 63 then some (.integer (Int64.ofNat n.toNat)) else none

/-- The table of a configuration, in the order of writing; there is none if a number is too
large. -/
def toTable? (c : Configuration) : Option Toml.Table := do
  let directory := (c.caching.disk.directory.map fun d => ("directory", Toml.string d)).toList
  return [
    ("storage", .table [("loom_dir", .string c.storage.directory)]),
    ("pipeline", .table [
      ("extensions", .array (c.pipeline.extensionNames.map .string)),
      ("concurrent_parse", .bool c.pipeline.concurrent),
      ("id_strategy", .string c.pipeline.strategy.name)]),
    ("cache", .table [
      ("enable_file_cache", .bool c.caching.useDisk),
      ("memory", .table [
        ("max_size_mb", ← settingsWord? c.caching.memory.megabytes),
        ("max_items", ← settingsWord? c.caching.memory.maxItems),
        ("ttl_secs", ← settingsWord? c.caching.memory.ttlSeconds)]),
      ("file", .table (directory ++
        [("max_size_mb", ← settingsWord? c.caching.disk.megabytes)]))]),
    ("extensions",
      .table (c.extensionSettings.map fun _ t => Toml.table (settingsEntries t)).entries),
    ("logging", .table [("level", .string c.logging.level)])]

/-- The settings of an extension as JSON; an extension without settings has an empty object. -/
def extensionJson (c : Configuration) (name : String) : Json :=
  match c.extensionSettings.get? name with
  | some t => (Toml.table t).toJson
  | none => .object []

instance : Json.Form Configuration := ⟨toJson, read⟩

end Configuration

end CodeGraph
