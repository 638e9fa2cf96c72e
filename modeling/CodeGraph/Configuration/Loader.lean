import CodeGraph.Configuration.Rules
import CodeGraph.Toml.Reader
import CodeGraph.Volume.Access

/-!
# Loading a configuration

A configuration has two files, one for all workspaces and one in the workspace. The table of the
second is laid over that of the first and only then read as a configuration, so a file that repeats
a default overrides the other file. Overrides come last, and what comes of it is validated.

The table of the file for all workspaces is read once and kept (`ConfigurationLoader.table`), also
when the rest of the loading fails.
-/

namespace CodeGraph

/-- A loader, with the table of the file for all workspaces once it has been read. -/
structure ConfigurationLoader where
  /-- The directory of the file for all workspaces. -/
  directory : Option String
  table : Option Toml.Table := none
  deriving Inhabited

/-- A loader and the drive it reads from. -/
structure LoaderState where
  loader : ConfigurationLoader
  drive : Drive
  deriving Inhabited

/-- Operations of a loader. -/
abbrev LoaderM := ExceptT ConfigurationError (StateM LoaderState)

namespace ConfigurationLoader

/-- The directory of the data of a user or a workspace. -/
def directoryName : String := ".codeloom"

/-- The name of a configuration file. -/
def fileName : String := "config.toml"

/-- The file for all workspaces. -/
def globalPath? (l : ConfigurationLoader) : Option String :=
  l.directory.map fun d => Path.join d fileName

def localPath (workspace : String) : String :=
  Path.join (Path.join workspace directoryName) fileName

/-- Carries out an operation on files. -/
def files {α : Type} (op : FileM α) : LoaderM α := do
  let s ← get
  let (a, drive) := op.run s.drive
  set { s with drive }
  return a

/-- Whether there is something at a path. -/
def isThere (path : String) : LoaderM Bool := do
  return (← files (FileM.reading (·.metadata path))).isOk

def readTable (path : String) : LoaderM Toml.Table := do
  match ← files (FileM.readText path) with
  | .error e => throw (.unreadable path e)
  | .ok s =>
    match Toml.ofText? s with
    | some t => return t
    | none => throw (.malformed path)

/-- The table of the file for all workspaces, if there is one. -/
def globalTable : LoaderM (Option Toml.Table) := do
  let l := (← get).loader
  match l.table, l.globalPath? with
  | some t, _ => return some t
  | none, none => return none
  | none, some path =>
    if !(← isThere path) then return none
    let t ← readTable path
    modify fun s => { s with loader := { s.loader with table := some t } }
    return some t

/-- The table of the file of a workspace, if there is one. -/
def localTable (workspace : String) : LoaderM (Option Toml.Table) := do
  let path := localPath workspace
  if !(← isThere path) then return none
  return some (← readTable path)

/-- What is wrong with a table that describes no configuration. A text may also break off, and a table
never does. -/
def errorOf : Json.Failure → ConfigurationError
  | .mismatch path m => .mismatch path m
  | .text b => .mismatch [] (.other b.message)

/-- The configuration that a table describes. -/
def interpret (t : Toml.Table) : Except ConfigurationError Configuration :=
  (Toml.decode Configuration.read t).mapError errorOf

def finish (o : Configuration.Overrides) (c : Configuration) :
    Except ConfigurationError Configuration := do
  let c := c.override o
  c.validate
  return c

def load (workspace : String) (o : Configuration.Overrides) : LoaderM Configuration := do
  let above ← globalTable
  let here ← localTable workspace
  let merged := Toml.merge (Toml.merge [] (above.getD [])) (here.getD [])
  finish o (← interpret merged)

/-- The configuration of a single file. -/
def loadFile (path : String) (o : Configuration.Overrides) : LoaderM Configuration := do
  finish o (← interpret (← readTable path))

/-- What the file for all workspaces says, if there is one. -/
def loadGlobal : LoaderM (Option Configuration) := do
  match ← globalTable with
  | some t => return some (← interpret t)
  | none => return none

/-- What the file of a workspace says, if there is one. -/
def loadLocal (workspace : String) : LoaderM (Option Configuration) := do
  match ← localTable workspace with
  | some t => return some (← interpret t)
  | none => return none

/-- Writes a configuration to a file, in a directory that is made if it is missing. -/
def save (path : String) (c : Configuration) : LoaderM Unit := do
  if let some parent := Path.parent? path then
    if !(← isThere parent) then
      if let .error e ← files (FileM.makeDirs parent) then
        throw (.noDirectory parent e)
  let text ← c.text
  if let .error e ← files (FileM.writeFile path text.toUTF8) then
    throw (.unwritable path e)

/-- Writes the file for all workspaces. -/
def saveGlobal (c : Configuration) : LoaderM Unit := do
  match (← get).loader.globalPath? with
  | some path => save path c
  | none => throw .homeless

/-- Writes the file of a workspace. -/
def saveLocal (workspace : String) (c : Configuration) : LoaderM Unit :=
  save (localPath workspace) c

/-- Writes the defaults to the file of a workspace unless there is one. -/
def initLocal (workspace : String) : LoaderM String := do
  let path := localPath workspace
  if !(← isThere path) then save path {}
  return path

/-- Forgets the table of the file for all workspaces. -/
def forget (l : ConfigurationLoader) : ConfigurationLoader :=
  { l with table := none }

end ConfigurationLoader

end CodeGraph
