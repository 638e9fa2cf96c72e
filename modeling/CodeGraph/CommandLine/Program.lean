import CodeGraph.CommandLine.Command
import CodeGraph.CommandLine.Output
import CodeGraph.Extension.Builtin

/-!
# Carrying out commands

A command works on a host: a drive with a current directory, a clock and the environment. What it
gives is an outcome: what it prints, and how it ends.
-/

namespace CodeGraph.CommandLine

/-- What commands work on. -/
structure Host where
  drive : Drive
  /-- Milliseconds since the epoch. -/
  clock : UInt64
  /-- The home directory of the user, if there is one. -/
  home : Option String := none
  environment : NameMap String := .empty

/-- The variable of the environment that names the directory for configuration. -/
def configHomeVariable : String := "XDG_CONFIG_HOME"

/-- The variables of the environment that count. -/
def variableNames : List String :=
  globalOptions.filterMap (·.envVar?) ++ [configHomeVariable]

/-- Why a command fails. -/
inductive Failure where
  /-- For reasons that lead from the outermost to the root. -/
  | because (reasons : List String)
  /-- The program breaks off: the cache holds an entry whose name is too short for it to be looked
  after, its sizes are too large to be added up, or a string has too many quotes in a row. -/
  | brokeOff
  deriving DecidableEq, Repr

/-- How a command ends. -/
inductive Outcome where
  | printed (text : String)
  | failed (f : Failure)
  /-- The command line is not understood. -/
  | misused
  deriving DecidableEq, Repr

namespace Outcome

def code : Outcome → UInt8
  | .printed _ => 0
  | .failed (.because _) => 1
  | .failed .brokeOff => 101
  | .misused => 2

/-- What is printed as the answer. -/
def output : Outcome → String
  | .printed s => s
  | _ => ""

/-- What is printed as a failure. -/
def diagnostic : Outcome → String
  | .failed (.because reasons) => failureText reasons
  | _ => ""

end Outcome

/-- Commands, which may fail. -/
abbrev HostM := ExceptT Failure (StateM Host)

namespace HostM

/-- Fails for reasons that lead from the outermost to the root. -/
def refuse {α : Type} (reasons : List String) : HostM α :=
  throw (.because reasons)

/-- Carries out an operation on files. -/
def onFiles {α : Type} (op : FileM α) : HostM α :=
  modifyGet fun h =>
    let (a, drive) := op.run h.drive
    (a, { h with drive })

/-- The result, or a failure with what was attempted as its outermost reason. -/
def orFail {ε α : Type} (attempt : Option String) (reasons : ε → List String) :
    Except ε α → HostM α
  | .ok a => pure a
  | .error e => refuse (attempt.toList ++ reasons e)

/-- Carries out an operation of a loader of configurations. -/
def onLoader {α : Type} (attempt : String) (op : LoaderM α) : HostM α := do
  let h ← get
  let directory := h.home.map fun d => Path.join d ConfigurationLoader.directoryName
  let (r, after) := op.run.run ⟨{ directory }, h.drive⟩
  set { h with drive := after.drive }
  orFail (some attempt) ConfigurationError.reasons r

/-- Carries out an operation of a repository. -/
def onRepository {α : Type} (attempt : Option String) (op : FileRepository.RepositoryM α) :
    HostM α := do
  orFail attempt RepositoryError.reasons (← onFiles op.run)

/-- Carries out an operation of the disk layer of a cache, and gives the layer afterwards. -/
def onDisk {α : Type} (attempt : String) (cache : Cache.DiskCache) (op : Cache.DiskM α) :
    HostM (α × Cache.DiskCache) := do
  let (r, after) ← modifyGet fun h =>
    let (r, after) := op.run.run ⟨cache, h.drive⟩
    ((r, after.cache), { h with drive := after.drive })
  match r with
  | .ok a => return (a, after)
  | .error e => if e.isFatal then throw .brokeOff else refuse (attempt :: e.reasons)

end HostM

/-! ## What all commands start with -/

def workspaceOf (g : GlobalOptions) : HostM String := do
  let v := (← get).drive.volume
  match g.workspace with
  | none => return Path.ofParts true v.current
  | some path =>
    if !v.isDirectory path then
      HostM.refuse ["Workspace '" ++ path ++ "' is not a directory"]
    HostM.orFail (some ("Failed to resolve workspace '" ++ path ++ "'"))
      (fun e : OsError => [e.message]) (v.canonical path)

/-- What the options of every command override. -/
def overridesOf (g : GlobalOptions) : Configuration.Overrides where
  level := if g.quiet then some "error" else if g.verbose then some "debug" else none

def configurationOf (g : GlobalOptions) (workspace : String) : HostM Configuration :=
  match g.config with
  | some path =>
    HostM.onLoader ("Failed to load config file " ++ path)
      (ConfigurationLoader.loadFile path (overridesOf g))
  | none =>
    HostM.onLoader "Failed to load configuration"
      (ConfigurationLoader.load workspace (overridesOf g))

/-- A number of megabytes in bytes, or the largest word. -/
def megabytes (n : UInt64) : UInt64 :=
  UInt64.ofNat (min (n.toNat * 1048576) (UInt64.size - 1))

/-- The settings of the cache. A lifetime of zero seconds is none at all. -/
def cacheSettings (c : Configuration) (workspace : String) : Cache.Settings where
  memory := {
    maxSize := megabytes c.caching.memory.megabytes
    maxItems := c.caching.memory.maxItems
    ttlSeconds :=
      if c.caching.memory.ttlSeconds = 0 then none else some c.caching.memory.ttlSeconds }
  disk := {
    directory := c.cacheDirectory workspace, maxSize := megabytes c.caching.disk.megabytes }
  useDisk := c.caching.useDisk

/-! ## Making a graph -/

/-- The configuration with the options of making a graph over it. -/
def buildConfiguration (o : BuildOptions) (c : Configuration) : HostM Configuration := do
  let c ← match o.extensionNames with
    | none => pure c
    | some extensionNames => do
      let c := { c with pipeline := { c.pipeline with extensionNames } }
      HostM.orFail none ConfigurationError.reasons c.validate
      pure c
  return if o.concurrent then { c with pipeline := { c.pipeline with concurrent := true } } else c

def pipelineOf (c : Configuration) : HostM Pipeline := do
  let names := c.pipeline.extensionNames
  let extensions ← HostM.orFail none (fun n => [Extension.unknownMessage n])
    (Extension.ofNames names)
  return names.foldl (fun p n => p.withSettings n (c.extensionJson n))
    { extensions, concurrent := c.pipeline.concurrent }

/-- Makes the graph of the workspace. The cache is brought to disk whether or not that succeeds. -/
def buildGraph (o : BuildOptions) (g : GlobalOptions) : HostM String := do
  let workspace ← workspaceOf g
  let c ← buildConfiguration o (← configurationOf g workspace)
  let opened : Except Cache.CacheError (Option (Cache.LayeredCache FileFacts)) :=
    if o.noCache then .ok none
    else (Cache.LayeredCache.new (cacheSettings c workspace) true).map some
  let facts ← HostM.orFail (some "Failed to open result cache") Cache.CacheError.reasons opened
  let p ← pipelineOf c
  let h ← get
  let session : Session :=
    { ids := { strategy := c.pipeline.strategy }, clock := h.clock, drive := h.drive, facts
      person := ⟨h.home, h.environment.get? configHomeVariable⟩ }
  let (r, after) :=
    (p.run workspace).run ⟨session, .files ⟨c.graphDirectory workspace⟩⟩
  let session := after.session
  let stats := session.facts.map (·.stats)
  let drive := match session.facts with
    | none => session.drive
    | some cache => ((Cache.LayeredCache.flush h.clock).run.run ⟨cache, session.drive⟩).2.drive
  set { h with drive }
  let run ← HostM.orFail (some "Failed to build graph") PipelineError.reasons r
  let summary : BuildSummary := ⟨run.graph, run.report, stats⟩
  return if o.json then jsonLines summary.toJson else summary.text

/-! ## Looking at a graph -/

/-- The criteria of the options, if they set any. -/
def criteriaOf? (o : GraphOptions) : Option Criteria :=
  if o.type.isNone && o.labels.isEmpty && o.domain.isNone then none
  else some { type := o.type, labels := o.labels, domain := o.domain }

/-- Shows a graph, as far as the options tell. -/
def showGraph (o : GraphOptions) (graph : PropertyGraph) : HostM String :=
  match o.id, criteriaOf? o with
  | some id, _ =>
    match graph.node? id with
    | none => HostM.refuse ["Node '" ++ id ++ "' not found in graph " ++ graph.id]
    | some n => return if o.json then jsonLines (nodeJson graph n id) else nodeText graph n id
  | none, none => return if o.json then jsonLines (overviewJson graph) else overviewText graph
  | none, some c =>
    let found := (GraphQuery.ofGraph graph).find c
    let shown := found.take o.limit
    return if o.json then jsonLines (.array (shown.map Node.toJson))
      else selectionText shown found.length

/-- Looks at the latest graph of the workspace, at another one, or at the list of all. -/
def inspectGraph (o : GraphOptions) (g : GlobalOptions) : HostM String := do
  let workspace ← workspaceOf g
  let c ← configurationOf g workspace
  let r : FileRepository := ⟨c.graphDirectory workspace⟩
  if o.history then
    let l ← HostM.onRepository (some "Failed to list graphs") r.list
    return if o.json then jsonLines (.array (l.map GraphMetadata.toJson))
      else historyText r.directory l
  let found ← HostM.onRepository none <|
    match o.graph with
    | some id => r.findById id
    | none => r.findByCodebase workspace
  match found with
  | some graph => showGraph o graph
  | none =>
    HostM.refuse
      ["No graph found for " ++ workspace ++ ". Run `" ++ programName ++ " build` first."]

/-! ## The cache and the configuration -/

/-- The disk layer of the cache of a workspace, and whether it is used. -/
def diskCacheOf (g : GlobalOptions) : HostM (Cache.DiskCache × Bool) := do
  let workspace ← workspaceOf g
  let s := cacheSettings (← configurationOf g workspace) workspace
  return (.new s.disk, s.useDisk)

/-- Tells what the disk layer holds. -/
def tellCache (json : Bool) (g : GlobalOptions) : HostM String := do
  let (cache, useDisk) ← diskCacheOf g
  let (s, _) ← HostM.onDisk "Failed to read cache" cache Cache.DiskCache.stats
  return if json then jsonLines (cacheJson cache.directory useDisk s)
    else cacheText cache.directory useDisk s

def clearCache (g : GlobalOptions) : HostM String := do
  let (cache, _) ← diskCacheOf g
  let (_, cache) ← HostM.onDisk "Failed to read cache" cache Cache.DiskCache.stats
  let _ ← HostM.onDisk "Failed to clear cache" cache Cache.DiskCache.clear
  return ""

def showConfiguration (json : Bool) (g : GlobalOptions) : HostM String := do
  let c ← configurationOf g (← workspaceOf g)
  if json then return jsonLines c.toJson
  else
    match c.text with
    | .error .endlessQuotes => throw .brokeOff
    | r => HostM.orFail none ConfigurationError.reasons r

/-- Prints the paths of the configuration files. -/
def showPaths (json : Bool) (g : GlobalOptions) : HostM String := do
  let workspace ← workspaceOf g
  let h ← get
  let file (path : String) : ConfigFile := ⟨path, h.drive.volume.fileExists path⟩
  let loader : ConfigurationLoader :=
    ⟨h.home.map fun d => Path.join d ConfigurationLoader.directoryName, none⟩
  let above := loader.globalPath?.map file
  let here := file (ConfigurationLoader.localPath workspace)
  return if json then jsonLines (pathsJson above here) else pathsText above here

/-- Writes the default configuration of the workspace unless there is one. -/
def initConfiguration (g : GlobalOptions) : HostM String := do
  let workspace ← workspaceOf g
  let path ← HostM.onLoader "Failed to initialize configuration"
    (ConfigurationLoader.initLocal workspace)
  return lines ["Configuration at " ++ path]

/-! ## Whole command lines -/

def Command.execute (g : GlobalOptions) : Command → HostM String
  | .build o => buildGraph o g
  | .graph o => inspectGraph o g
  | .cacheStats json => tellCache json g
  | .cacheClear => clearCache g
  | .configShow json => showConfiguration json g
  | .configPath json => showPaths json g
  | .configInit => initConfiguration g

def run (words : List String) : StateM Host Outcome := do
  match readCommandLine (← get).environment words with
  | .error .misuse => return .misused
  | .error .help => return .printed ""
  | .error (.version name) => return .printed (lines [name ++ " " ++ programVersion])
  | .ok (command, g) =>
    match ← (command.execute g).run with
    | .ok s => return .printed s
    | .error f => return .failed f

end CodeGraph.CommandLine
