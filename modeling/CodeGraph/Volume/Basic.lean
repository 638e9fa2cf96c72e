import CodeGraph.Volume.Path

/-!
# Volumes

A volume is a tree of directories, files and symbolic links, held as a list of entries by their
real paths. The list gives every directory its order of listing, which nothing here depends on.

The operations answer as an operating system does, links followed and errors included. Each of them
is a function of the volume, so what a sequence of operations leaves behind is a value.
-/

namespace CodeGraph

/-- Why an operation on files fails. -/
inductive OsError where
  | notFound
  | alreadyExists
  | notDirectory
  | isDirectory
  | invalidArgument
  | nameTooLong
  | notEmpty
  | tooManyLinks
  | noSpace
  | nulInName
  | notText
  deriving DecidableEq, Repr

namespace OsError

def message : OsError → String
  | .notFound => "No such file or directory (os error 2)"
  | .alreadyExists => "File exists (os error 17)"
  | .notDirectory => "Not a directory (os error 20)"
  | .isDirectory => "Is a directory (os error 21)"
  | .invalidArgument => "Invalid argument (os error 22)"
  | .noSpace => "No space left on device (os error 28)"
  | .nameTooLong => "File name too long (os error 36)"
  | .notEmpty => "Directory not empty (os error 39)"
  | .tooManyLinks => "Too many levels of symbolic links (os error 40)"
  | .nulInName => "file name contained an unexpected NUL byte"
  | .notText => "stream did not contain valid UTF-8"

end OsError

/-- What is at a path. -/
inductive Item where
  | file (content : ByteArray)
  | directory
  | link (target : String)

namespace Item

/-- Whether an item is a directory. -/
def isDirectory : Item → Bool
  | .directory => true
  | _ => false

/-- The size of a file; nothing else has one. -/
def size : Item → Nat
  | .file content => content.size
  | _ => 0

def same : Item → Item → Bool
  | .file a, .file b => a.data == b.data
  | .directory, .directory => true
  | .link a, .link b => a == b
  | _, _ => false

end Item

/-- A tree of files. The root is a directory and has no entry. -/
structure Volume where
  entries : List (List String × Item) := []
  /-- Where relative paths start. -/
  current : List String := []
  deriving Inhabited

namespace Volume

/-- What is at a real path. -/
def item? (v : Volume) (p : List String) : Option Item :=
  if p = [] then some .directory else v.entries.lookup p

/-- Puts an item at a real path. -/
def put (v : Volume) (p : List String) (i : Item) : Volume :=
  if v.entries.any (fun e => e.1 == p) then
    { v with entries := v.entries.map fun e => if e.1 == p then (p, i) else e }
  else { v with entries := v.entries ++ [(p, i)] }

/-- Takes away what is at a real path and below. -/
def remove (v : Volume) (p : List String) : Volume :=
  { v with entries := v.entries.filter fun e => !p.isPrefixOf e.1 }

/-- The names in a directory, in the order of listing. -/
def children (v : Volume) (p : List String) : List String :=
  v.entries.filterMap fun e =>
    match e.1.getLast? with
    | some n => if e.1.dropLast == p then some n else none
    | none => none

/-- The longest name that a directory takes, in bytes. -/
def longestName : Nat := 255

/-- The longest path that an operation takes, in bytes. -/
def longestPath : Nat := 4095

/-- Follows names from a real directory. Links on the way are followed, and one at the end too if
`follow` says so; at most `hops` of them. -/
def walk (v : Volume) (follow : Bool) (hops : Nat) (here : List String) :
    List String → Except OsError (List String × Option Item)
  | [] => .ok (here, v.item? here)
  | n :: rest =>
    if !(v.item? here).any (·.isDirectory) then .error .notDirectory
    else if n = "" ∨ n = "." then walk v follow hops here rest
    else if n = ".." then walk v follow hops here.dropLast rest
    else if longestName < n.utf8ByteSize then .error .nameTooLong
    else
      let there := here ++ [n]
      match v.item? there with
      | none => if rest.all (· == "") then .ok (there, none) else .error .notFound
      | some (.link target) =>
        if rest.isEmpty ∧ !follow then .ok (there, some (.link target))
        else
          match hops with
          | 0 => .error .tooManyLinks
          | hops + 1 =>
            walk v follow hops (if Path.isAbsolute target then [] else here)
              (Path.split target ++ rest)
      | some (.file content) =>
        if rest.isEmpty then .ok (there, some (.file content)) else .error .notDirectory
      | some .directory => walk v follow hops there rest
termination_by names => (hops, names.length)

/-- The real path of a path and what is there. -/
def resolve (v : Volume) (follow : Bool) (p : String) :
    Except OsError (List String × Option Item) :=
  if p = "" then .error .notFound
  else if p.toList.contains '\x00' then .error .nulInName
  else if longestPath < p.utf8ByteSize then .error .nameTooLong
  else v.walk follow 40 (if Path.isAbsolute p then [] else v.current) (Path.split p)

def find (v : Volume) (follow : Bool) (p : String) : Except OsError (List String × Item) := do
  match ← v.resolve follow p with
  | (q, some i) => return (q, i)
  | (_, none) => throw .notFound

/-! ## Reading -/

def readFile (v : Volume) (p : String) : Except OsError ByteArray := do
  match ← v.find true p with
  | (_, .file content) => return content
  | _ => throw .isDirectory

/-- The contents of a file of text. -/
def readText (v : Volume) (p : String) : Except OsError String := do
  match String.fromUTF8? (← v.readFile p) with
  | some s => return s
  | none => throw .notText

def readDir (v : Volume) (p : String) : Except OsError (List String) := do
  match ← v.find true p with
  | (q, .directory) => return v.children q
  | _ => throw .notDirectory

/-- What a path leads to, links followed. -/
def metadata (v : Volume) (p : String) : Except OsError Item := do
  return (← v.find true p).2

/-- What is at a path, a link at its end not followed. -/
def linkMetadata (v : Volume) (p : String) : Except OsError Item := do
  return (← v.find false p).2

/-- Whether a path leads to something. -/
def fileExists (v : Volume) (p : String) : Bool :=
  (v.metadata p).isOk

/-- Whether a path leads to a directory. -/
def isDirectory (v : Volume) (p : String) : Bool :=
  match v.metadata p with
  | .ok i => i.isDirectory
  | .error _ => false

/-- Whether a path leads to something; only its absence means no. -/
def tryExists (v : Volume) (p : String) : Except OsError Bool :=
  match v.metadata p with
  | .ok _ => .ok true
  | .error .notFound => .ok false
  | .error e => .error e

/-- The absolute path without links that a path leads to. -/
def canonical (v : Volume) (p : String) : Except OsError String := do
  return Path.ofParts true (← v.find true p).1

/-! ## Writing -/

/-- Creates a file or replaces its contents. A path that ends in a slash, or at a link to one that
does, is that of a directory: no file is created there. -/
def writeFile (v : Volume) (p : String) (content : ByteArray) : Except OsError Volume := do
  match ← v.resolve true p with
  | (_, some .directory) => throw .isDirectory
  | (q, none) =>
    let w := v.put q (.file content)
    if !w.fileExists p then throw .isDirectory
    return w
  | (q, some _) => return v.put q (.file content)

def makeDir (v : Volume) (p : String) : Except OsError Volume := do
  match ← v.resolve false p with
  | (_, some _) => throw .alreadyExists
  | (q, none) => return v.put q .directory

/-- Creates the first of some paths, each directly inside the next. Those further on are created
only if the first one cannot be without them. -/
def makeDirsOf (v : Volume) : List String → Except OsError Volume
  | [] => .ok v
  | p :: above =>
    match v.makeDir p with
    | .ok v => .ok v
    | .error .notFound => do
      let v ← makeDirsOf v above
      match v.makeDir p with
      | .ok v => .ok v
      | .error e => if v.isDirectory p then .ok v else .error e
    | .error e => if v.isDirectory p then .ok v else .error e

/-- What is left of creating the first of some paths when it fails: those further on stay that could be
created before. -/
def dirsLeftOf (v : Volume) : List String → Volume
  | [] => v
  | p :: above =>
    match v.makeDir p with
    | .error .notFound =>
      match v.makeDirsOf above with
      | .ok w => w
      | .error _ => dirsLeftOf v above
    | _ => v

/-- A path and the paths above it, the innermost first. -/
def ancestry (p : String) : List String :=
  let names := Path.parts p
  (List.range names.length).map fun i =>
    Path.ofParts (Path.isAbsolute p) (names.take (names.length - i))

/-- Creates a directory and those above it that are missing. -/
def makeDirs (v : Volume) (p : String) : Except OsError Volume :=
  v.makeDirsOf (ancestry p)

/-- What is left of creating a directory and those above it when it fails. -/
def dirsLeft (v : Volume) (p : String) : Volume :=
  v.dirsLeftOf (ancestry p)

/-- Takes away a file or a link. -/
def removeFile (v : Volume) (p : String) : Except OsError Volume := do
  match ← v.find false p with
  | (_, .directory) => throw .isDirectory
  | (q, _) => return v.remove q

/-- Takes away a directory and all below; a link is taken away itself. -/
def removeTree (v : Volume) (p : String) : Except OsError Volume := do
  match ← v.find false p with
  | (_, .file _) => throw .notDirectory
  | (q, _) => return v.remove q

/-- Moves a file to another path, replacing a file there. -/
def rename (v : Volume) (source target : String) : Except OsError Volume := do
  let (p, i) ← v.find false source
  match i, ← v.resolve false target with
  | .directory, (_, some .directory) => throw .notEmpty
  | .directory, (_, some _) => throw .notDirectory
  | .directory, (q, none) =>
    return { v with entries := v.entries.map fun e =>
      if p.isPrefixOf e.1 then (q ++ e.1.drop p.length, e.2) else e }
  | _, (_, some .directory) => throw .isDirectory
  | i, (q, _) => if p = q then return v else return (v.remove p).put q i

end Volume

end CodeGraph
