import CodeGraph.Extension.Basic
import CodeGraph.Glob.Lookup
import CodeGraph.Glob.Reader
import CodeGraph.Ignore.Level

/-!
# The tree of files

This extension gives a node for every directory and every file below the root and an edge from each
directory to what it contains. Ignore files are honoured, globs leave out more, and so is the
directory in which this program keeps its data.

A walk goes through a directory in the order of names and into each directory before it goes on.
Links are not followed, except that the root itself may be one.
-/

namespace CodeGraph.FileTree

def name : String := "filesystem"

/-- The directory of this program's own data. -/
def dataDirectory : String := ".codeloom"

/-! ## Settings -/

/-- The settings of the extension. -/
structure Settings where
  /-- Globs of paths from the root on that are left out. -/
  exclude : List String := []
  /-- Whether names with a point at the start are walked. -/
  includeHidden : Bool := false
  /-- Above this size, in units of 1024 bytes, the contents of a file are not looked at. -/
  maxFileKb : UInt64 := 1024
  deriving Repr, Inhabited

namespace Settings

def record : Json.Record Settings where
  name := "FilesystemSettings"
  start := {}
  fields := [
    .defaulted "exclude" (Json.readList Json.readString) fun x s => { s with exclude := x },
    .defaulted "include_hidden" Json.readBool fun x s => { s with includeHidden := x },
    .defaulted "max_file_kb" Json.readWord fun x s => { s with maxFileKb := x }]

/-- Whether the contents of a file of a size are looked at. -/
def takes (s : Settings) (size : Nat) : Bool :=
  size ≤ s.maxFileKb.toNat * 1024

end Settings

/-- Why settings are refused. -/
inductive SettingsError where
  | unreadable (reason : String)
  | badGlob (glob : String)
  /-- The globs cannot be used together. -/
  | badGlobs (fault : Glob.Fault)

def SettingsError.reasons : SettingsError → List String
  | .unreadable reason => ["invalid filesystem settings", reason]
  | .badGlob g => ["invalid exclude glob '" ++ g ++ "'"]
  | .badGlobs fault => [fault.message]

/-- Reads the globs of what is left out. -/
def readGlobs (s : Settings) : Except SettingsError (List Glob) := do
  let globs ← s.exclude.mapM fun g =>
    match Glob.ofText? {} g with
    | some glob => .ok glob
    | none => .error (.badGlob g)
  match Glob.fault? globs with
  | some fault => throw (.badGlobs fault)
  | none => return globs

def readSettings (settings : Json) : Except SettingsError (Settings × List Glob) := do
  let s ← (Extension.settings Settings.record settings).mapError .unreadable
  return (s, ← readGlobs s)

/-! ## Walking -/

/-- A directory or a file that a walk comes to. -/
structure Entry where
  /-- The path from the root on; that of the root itself is a point. -/
  relative : String
  /-- The path with that of the root in front. -/
  path : String
  isDirectory : Bool
  deriving DecidableEq, Repr, Inhabited

/-- What is walked. -/
structure Walk where
  volume : Volume
  /-- Whose ignore rules count besides those of the directories. -/
  person : Ignore.Person
  includeHidden : Bool
  exclude : List Glob

namespace Walk

def isHidden (name : String) : Bool :=
  name.toList.head? == some '.'

/-- Whether the rules let a walk come to a path. A rule that keeps a path makes it visible. -/
def permitted (w : Walk) (levels : Ignore.Levels) (path name : String) (isDirectory : Bool) :
    Bool :=
  match levels.verdict? path isDirectory with
  | some .ignore => false
  | some .keep => true
  | none => w.includeHidden || !isHidden name

/-- Whether a walk leaves out a path from the root on. -/
def isExcluded (w : Walk) (names : List String) : Bool :=
  names.head? == some dataDirectory ||
    w.exclude.any fun g => g.isMatch (Path.ofParts false names)

/-- The entries in some directories: the names of the directory, its real path, its path as the walk
spells it, and the rules that hold in it. Directories are entered up to the depth `depth`. -/
def below (w : Walk) : Nat → Ignore.Levels → List String → List String → String → List Entry
  | 0, _, _, _, _ => []
  | depth + 1, levels, names, real, path =>
    (NameSet.ofNames (w.volume.children real)).names.flatMap fun name =>
      let names := names ++ [name]
      let real := real ++ [name]
      let path := Path.join path name
      let entry (isDirectory : Bool) : Entry := ⟨Path.ofParts false names, path, isDirectory⟩
      match w.volume.item? real with
      | some .directory =>
        if w.permitted levels path name true && !w.isExcluded names then
          entry true :: below w depth (levels.enter w.volume path) names real path
        else []
      | some (.file _) =>
        if w.permitted levels path name false && !w.isExcluded names then [entry false] else []
      | _ => []

/-- The depth of the deepest entry of a volume. -/
def depth (v : Volume) : Nat :=
  v.entries.foldl (fun n e => max n e.1.length) 0

/-- The entries of a walk from a root on. A root that is a link to a directory is no entry itself,
and a lone dash stands for no path at all. -/
def entries (w : Walk) (root : String) : List Entry :=
  let inside (real : List String) :=
    w.below (depth w.volume + 1) (.ofRoot w.volume w.person root) [] real root
  if root = "-" then []
  else
    match w.volume.linkMetadata root, w.volume.find true root with
    | .ok .directory, .ok (real, _) => ⟨".", root, true⟩ :: inside real
    | .ok _, .ok (_, .file _) => [⟨".", root, false⟩]
    | .ok _, .ok (real, .directory) => inside real
    | _, _ => []

end Walk

/-! ## Parsing -/

/-- The name of an entry: the last name of its path, and for the root that of the root's path. -/
def nameOf (root : String) (e : Entry) : String :=
  if e.relative = "." then (Path.fileName? root).getD "."
  else (Path.split e.relative).getLastD e.relative

/-- The path of the directory that an entry is in. -/
def parentOf? (e : Entry) : Option String :=
  if e.relative = "." then none
  else
    match (Path.split e.relative).dropLast with
    | [] => some "."
    | names => some ("/".intercalate names)

/-- Looks facts up among those that are kept, or derives them and keeps them. -/
def keptFacts (e : Entry) (content : ByteArray) (cache : Cache.LayeredCache FileFacts) :
    PhaseM FileFacts := do
  let s ← get
  let key := Cache.keyOfContent e.relative content
  let program : Cache.LayeredM FileFacts FileFacts := do
    match ← Cache.LayeredCache.lookup s.clock key with
    | some facts => return facts
    | none =>
      let facts := FileFacts.derive e.path content
      Cache.LayeredCache.store s.clock key facts
      return facts
  let (r, after) := program.run.run ⟨cache, s.drive⟩
  set { s with drive := after.drive, facts := some after.cache }
  match r with
  | .ok facts => return facts
  | .error e => throw (.brokeOff (some e.message))

/-- The facts about a file; there are none if it is too large or cannot be read. -/
def factsOf (settings : Settings) (e : Entry) : PhaseM (Option FileFacts) := do
  match ← PhaseM.onFiles (FileM.reading (·.metadata e.path)) with
  | .error _ => return none
  | .ok item =>
    if !settings.takes item.size then return none
    match ← PhaseM.onFiles (FileM.readFile e.path) with
    | .error _ => return none
    | .ok content =>
      match (← get).facts with
      | none => return some (.derive e.path content)
      | some cache => return some (← keptFacts e content cache)

/-- The metadata of a file with its facts. -/
def withFacts (m : NodeMetadata) (f : FileFacts) : NodeMetadata :=
  let m := { m with size := some f.size, language := f.language }
  (m.withExtra "lines" (.ofWord f.lines)).withExtra "content_hash" (.string f.contentHash)

def metadataOf (settings : Settings) (e : Entry) : PhaseM NodeMetadata := do
  let m : NodeMetadata := { filePath := some e.relative }
  if e.isDirectory then return m
  match ← factsOf settings e with
  | some f => return withFacts m f
  | none => return m

/-- What has been given so far, with the identifiers by path. -/
structure Progress where
  ids : NameMap String := .empty
  /-- The nodes, the last one first. -/
  nodes : List Node := []
  /-- The edges, the last one first. -/
  edges : List Edge := []

/-- Gives the node of an entry and the edge from its directory. -/
def add (settings : Settings) (root : String) (p : Progress) (e : Entry) : PhaseM Progress := do
  let name := nameOf root e
  let type := if e.isDirectory then NodeType.fsDirectory else .fsFile
  let metadata ← metadataOf settings e
  let id ← PhaseM.nodeId type name (some e.relative)
  let p := { p with nodes := { id, type, name, metadata } :: p.nodes }
  let p ← match (parentOf? e).bind p.ids.get? with
    | none => pure p
    | some parent => do
      let edge ← PhaseM.edgeId .contains parent id
      pure { p with
        edges := { id := edge, type := .contains, source := parent, target := id } :: p.edges }
  return { p with ids := p.ids.insert e.relative id }

/-- Gives the tree of files below the root. -/
def parse (c : ParseContext) : PhaseM ExtensionOutput := do
  match readSettings c.settings with
  | .error e => throw (.failed e.reasons)
  | .ok (settings, exclude) =>
    let s ← get
    let w : Walk := ⟨s.drive.volume, s.person, settings.includeHidden, exclude⟩
    let p ← (w.entries c.root).foldlM (add settings c.root) {}
    return ⟨p.nodes.reverse, p.edges.reverse⟩

def extension : Extension where
  info := ⟨name, "0.1.0", "filesystem"⟩
  nodeTypes := [⟨.fsDirectory, "Directory", []⟩, ⟨.fsFile, "File", []⟩]
  edgeTypes := [⟨.contains, "Contains"⟩]
  waits := true
  parse

end CodeGraph.FileTree
