import CodeGraph.CommandLine.Options
import CodeGraph.Vocabulary

/-!
# Commands

What the program can be told to do, and how it is told so on a command line.
-/

namespace CodeGraph.CommandLine

/-- The options of every command. -/
structure GlobalOptions where
  /-- The root of the workspace; without one it is the current directory. -/
  workspace : Option String := none
  /-- A configuration file that takes the place of all others. -/
  config : Option String := none
  verbose : Bool := false
  quiet : Bool := false
  deriving DecidableEq, Repr, Inhabited

/-- The options of making a graph. -/
structure BuildOptions where
  /-- The extensions in place of those of the configuration. -/
  extensionNames : Option (List String) := none
  noCache : Bool := false
  concurrent : Bool := false
  json : Bool := false
  deriving DecidableEq, Repr, Inhabited

/-- The options of looking at a graph. -/
structure GraphOptions where
  type : Option NodeType := none
  labels : List String := []
  domain : Option String := none
  /-- The node to be shown. -/
  id : Option String := none
  /-- The graph in place of the latest one. -/
  graph : Option String := none
  /-- Whether all graphs are listed instead. -/
  history : Bool := false
  /-- How many nodes are listed at most. -/
  limit : Nat := 50
  json : Bool := false
  deriving Inhabited

/-- What the program is told to do. -/
inductive Command where
  | build (o : BuildOptions)
  | graph (o : GraphOptions)
  | cacheStats (json : Bool)
  | cacheClear
  | configShow (json : Bool)
  | configPath (json : Bool)
  | configInit

def programName : String := "codeloom"

def programVersion : String := "0.1.0"

/-! ## The tree of commands -/

/-- A natural number that a 64-bit word holds; a plus sign may stand in front. -/
def wordOfText? (s : String) : Option Nat :=
  let digits := match s.toList with
    | '+' :: rest => rest
    | cs => cs
  if digits.isEmpty || !digits.all Char.isDigit then none
  else
    let n := digits.foldl (fun n c => 10 * n + (c.toNat - '0'.toNat)) 0
    if n < UInt64.size then some n else none

/-- An option with one value of any text. -/
def textOption (name : String) (short : Option Char := none) (excludes : List String := []) :
    OptionSpec :=
  { name, short, kind := .single fun _ => true, excludes }

def flagOption (name : String) (short : Option Char := none) (excludes : List String := []) :
    OptionSpec :=
  { name, short, kind := .flag, excludes }

/-- An option whose value is a path. -/
def pathOption (name : String) (short : Char) (variableName : String) : OptionSpec where
  name
  short := some short
  kind := .single (· ≠ "")
  envVar? := some variableName

def globalOptions : List OptionSpec := [
  pathOption "workspace" 'w' "CODELOOM_WORKSPACE",
  pathOption "config" 'c' "CODELOOM_CONFIG",
  flagOption "verbose" (some 'v'),
  flagOption "quiet" (some 'q')]

/-- The options of making a graph. -/
def buildOptions : List OptionSpec := [
  { name := "extensions", short := some 'e', kind := .many (some ',') },
  flagOption "no-cache",
  flagOption "concurrent",
  flagOption "json"]

/-- The options of looking at a graph. -/
def graphOptions : List OptionSpec := [
  { name := "type", short := some 't', kind := .single fun s => (NodeType.ofName? s).isSome },
  { name := "label", short := some 'l', kind := .many none },
  textOption "domain" (some 'd'),
  textOption "id" none ["type", "label", "domain"],
  textOption "graph",
  flagOption "history" none ["type", "label", "domain", "id", "graph"],
  { name := "limit", short := some 'n', kind := .single fun s => (wordOfText? s).isSome },
  flagOption "json"]

def program : CommandSpec :=
  .mk programName [] [
    .mk "build" buildOptions [],
    .mk "graph" graphOptions [],
    .mk "cache" [] [.mk "stats" [flagOption "json"] [], .mk "clear" [] []],
    .mk "config" [] [
      .mk "show" [flagOption "json"] [],
      .mk "path" [flagOption "json"] [],
      .mk "init" [] []]]

/-! ## What a command line tells -/

/-- The value of an option with one value. -/
def valueOf? (given : Given) (name : String) : Option String :=
  (given.get? name).bind (·.head?)

def GlobalOptions.ofGiven (given : Given) : GlobalOptions where
  workspace := valueOf? given "workspace"
  config := valueOf? given "config"
  verbose := given.contains "verbose"
  quiet := given.contains "quiet"

/-- The options of making a graph. -/
def BuildOptions.ofGiven (given : Given) : BuildOptions where
  extensionNames := given.get? "extensions"
  noCache := given.contains "no-cache"
  concurrent := given.contains "concurrent"
  json := given.contains "json"

/-- The options of looking at a graph. -/
def GraphOptions.ofGiven (given : Given) : GraphOptions where
  type := (valueOf? given "type").bind NodeType.ofName?
  labels := (given.get? "label").getD []
  domain := valueOf? given "domain"
  id := valueOf? given "id"
  graph := valueOf? given "graph"
  history := given.contains "history"
  limit := ((valueOf? given "limit").bind wordOfText?).getD 50
  json := given.contains "json"

/-- The command of a path in the tree of commands. -/
def Command.ofPath? (path : List String) (given : Given) : Option Command :=
  match path.tail with
  | ["build"] => some (.build (.ofGiven given))
  | ["graph"] => some (.graph (.ofGiven given))
  | ["cache", "stats"] => some (.cacheStats (given.contains "json"))
  | ["cache", "clear"] => some .cacheClear
  | ["config", "show"] => some (.configShow (given.contains "json"))
  | ["config", "path"] => some (.configPath (given.contains "json"))
  | ["config", "init"] => some .configInit
  | _ => none

/-- What a command line tells to do, given the environment. -/
def readCommandLine (environment : NameMap String) (words : List String) :
    Except Stop (Command × GlobalOptions) := do
  let r ← readOptions environment globalOptions program words
  match Command.ofPath? r.path r.own with
  | some c => return (c, .ofGiven r.shared)
  | none => throw .misuse

end CodeGraph.CommandLine
