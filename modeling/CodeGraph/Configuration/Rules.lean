import CodeGraph.Configuration.Basic
import CodeGraph.Text.Basic
import CodeGraph.Text.Case
import CodeGraph.Volume.Basic

/-!
# Rules of a configuration

What overrides a configuration, what makes one invalid, and where its directories are.
-/

namespace CodeGraph

/-- Why a configuration cannot be used. -/
inductive ConfigurationError where
  | unreadable (path : String) (error : OsError)
  /-- The file is not well formed. -/
  | malformed (path : String)
  /-- What the files say together is not a configuration; the names lead to the wrong value. -/
  | mismatch (path : List String) (m : Json.Mismatch)
  /-- A number is too large to be written. -/
  | tooLarge
  /-- A string has a run of quotes that cannot be counted. This ends the program that meets it. -/
  | endlessQuotes
  | unwritable (path : String) (error : OsError)
  | noDirectory (path : String) (error : OsError)
  /-- There is no home directory. -/
  | homeless
  | invalidValue (key message : String)

namespace ConfigurationError

/-- How a double is written where it is found by mistake. -/
def foundDouble (x : Float) : String :=
  if x.isNaN then "NaN"
  else if x.isInf then (if x < 0.0 then "-inf" else "inf")
  else Toml.doubleText x

/-- What is wrong with a value, and where it is. -/
def mismatchText (path : List String) (m : Json.Mismatch) : String :=
  m.message foundDouble ++
    (if path.isEmpty then "" else "\nin `" ++ ".".intercalate path ++ "`")

/-- The wording of a number that cannot be written. -/
def rangeText : String := "out-of-range value for u64 type"

/-- The wording of a run of quotes that cannot be counted. -/
def overflowText : String := "attempt to add with overflow"

/-- The wording of a file that is not well formed. -/
def malformedText : String := "TOML parse error"

def message : ConfigurationError → String
  | .unreadable path e => "failed to read config file '" ++ path ++ "': " ++ e.message
  | .malformed path => "failed to parse config file '" ++ path ++ "': " ++ malformedText
  | .mismatch path m => "invalid configuration: " ++ mismatchText path m
  | .tooLarge => "failed to serialize config: " ++ rangeText
  | .endlessQuotes => overflowText
  | .unwritable path e => "failed to write config file '" ++ path ++ "': " ++ e.message
  | .noDirectory path e => "failed to create config directory '" ++ path ++ "': " ++ e.message
  | .homeless => "could not determine home directory"
  | .invalidValue key m => "invalid configuration value for '" ++ key ++ "': " ++ m

/-- The wording of an error and of what it was caused by. A mismatch ends its line. -/
def reasons (e : ConfigurationError) : List String :=
  match e with
  | .unreadable _ cause | .unwritable _ cause | .noDirectory _ cause => [e.message, cause.message]
  | .mismatch path m => [e.message ++ "\n", mismatchText path m ++ "\n"]
  | .tooLarge => [e.message, rangeText]
  | .malformed _ => [e.message, malformedText]
  | .homeless | .invalidValue .. | .endlessQuotes => [e.message]

end ConfigurationError

/-- The strategy of a name in any case. -/
def IdStrategy.ofText (s : String) : Except ConfigurationError IdStrategy :=
  match Text.lower s with
  | "sequential" => .ok .sequential
  | "content-hash" => .ok .contentHash
  | "content_hash" => .ok .contentHash
  | other =>
    .error (.invalidValue "pipeline.id_strategy" ("unknown strategy '" ++ other ++ "'"))

namespace Configuration

/-- What takes the place of parts of a configuration. -/
structure Overrides where
  directory : Option String := none
  extensionNames : Option (List String) := none
  useDisk : Option Bool := none
  concurrent : Option Bool := none
  level : Option String := none
  deriving DecidableEq, Repr, Inhabited

/-- The configuration with the overridden parts replaced. -/
def override (c : Configuration) (o : Overrides) : Configuration where
  storage := { directory := o.directory.getD c.storage.directory }
  pipeline := { c.pipeline with
    extensionNames := o.extensionNames.getD c.pipeline.extensionNames
    concurrent := o.concurrent.getD c.pipeline.concurrent }
  caching := { c.caching with useDisk := o.useDisk.getD c.caching.useDisk }
  extensionSettings := c.extensionSettings
  logging := { level := o.level.getD c.logging.level }

/-- Refuses names without characters and names that come twice. -/
def checkNames (seen : List String) : List String → Except ConfigurationError Unit
  | [] => .ok ()
  | n :: rest =>
    if Text.trim n = "" then
      .error (.invalidValue "pipeline.extensions" "extension names must not be empty")
    else if seen.contains n then
      .error (.invalidValue "pipeline.extensions" ("duplicate '" ++ n ++ "'"))
    else checkNames (n :: seen) rest

/-- Refuses a configuration that no run can use. -/
def validate (c : Configuration) : Except ConfigurationError Unit := do
  checkNames [] c.pipeline.extensionNames
  if c.caching.memory.maxItems = 0 then
    throw (.invalidValue "cache.memory.max_items" "must be at least 1")

def text (c : Configuration) : Except ConfigurationError String :=
  match c.toTable? with
  | some t => if Toml.entriesWritable t then .ok (Toml.print t) else .error .endlessQuotes
  | none => .error .tooLarge

/-! ## Directories -/

/-- The directory of the data of a workspace. -/
def dataDirectory (c : Configuration) (workspace : String) : String :=
  Path.join workspace c.storage.directory

/-- The directory of the graphs of a workspace. -/
def graphDirectory (c : Configuration) (workspace : String) : String :=
  Path.join (c.dataDirectory workspace) "graphs"

/-- The directory of the cache of a workspace. -/
def cacheDirectory (c : Configuration) (workspace : String) : String :=
  match c.caching.disk.directory with
  | some d => Path.join workspace d
  | none => Path.join (c.dataDirectory workspace) "cache"

end Configuration

end CodeGraph
