import CodeGraph.Cache.DiskIndex
import CodeGraph.Cache.Key
import CodeGraph.Cache.Settings
import CodeGraph.Json.Printer
import CodeGraph.Volume.Access

/-!
# The disk layer

A value of a key with digest `h` is stored in two files, `h.json` with the value and `h.meta.json`
with the sidecar, in the directory named for the first two digits of `h`. The sidecar comes second,
so a value without a sidecar was not finished, and both are written under another name first.

The index of what is stored is made from the directory when it is first needed. On the way files go
that can belong to no entry: unfinished ones, values without a sidecar, and sidecars that cannot be
read or are of another version.

A digest that the directory gives is taken from a file name and may be anything; one that is too
short to name a directory is an error of its own (`CacheError.noShard`). So is a total of sizes that
is no 64-bit word (`CacheError.overflow`). Both end the program that meets them.
-/

namespace CodeGraph.Cache

/-- Why a cache operation fails. -/
inductive CacheError where
  | io (path : String) (error : OsError)
  | json (failure : Json.Failure)
  /-- There is nothing that could carry out the writes. -/
  | noRuntime
  /-- A digest whose first two bytes are not characters of their own. -/
  | noShard (digest : String)
  /-- A size or a time that is no 64-bit word. -/
  | overflow
  /-- A queue of writes that would be longer than any can be. -/
  | endlessQueue

namespace CacheError

/-- Whether an error ends the program that meets it. -/
def isFatal : CacheError → Bool
  | .noShard _ | .overflow | .endlessQueue => true
  | _ => false

/-- The wording of an error, the reason a value cannot be read left out. -/
def message : CacheError → String
  | .io path e => "cache I/O error at '" ++ path ++ "': " ++ e.message
  | .json f => "cache serialization error: " ++ f.message Json.doubleText
  | .noRuntime => "file cache requires a tokio runtime"
  | .noShard digest => "no directory for the digest '" ++ digest ++ "'"
  | .overflow => "attempt to add with overflow"
  | .endlessQueue => "a queue of writes cannot be that long"

/-- The wording of an error and of what it was caused by. -/
def reasons (e : CacheError) : List String :=
  match e with
  | .io _ cause => [e.message, cause.message]
  | .json cause => [e.message, cause.message Json.doubleText]
  | .noRuntime | .noShard _ | .overflow | .endlessQueue => [e.message]

end CacheError

/-- The sidecar of a stored value. -/
structure Sidecar where
  key : String
  /-- When the value was written, in milliseconds. -/
  timestamp : UInt64
  /-- The size of the value in bytes. -/
  size : UInt64
  /-- The version of the layout. -/
  version : UInt32
  deriving DecidableEq, Repr, Inhabited

namespace Sidecar

/-- The version of the layout that is written. -/
def currentVersion : UInt32 := 1

def toJson (m : Sidecar) : Json :=
  .object [("key", .string m.key), ("timestamp", .ofWord m.timestamp), ("size", .ofWord m.size),
    ("version", .ofWord m.version.toUInt64)]

def record : Json.Record Sidecar where
  name := "EntryMeta"
  start := default
  fields := [
    .needed "key" Json.readString fun x m => { m with key := x },
    .needed "timestamp" Json.readWord fun x m => { m with timestamp := x },
    .needed "size" Json.readWord fun x m => { m with size := x },
    .needed "version" Json.readWord32 fun x m => { m with version := x }]

def encode (m : Sidecar) : ByteArray :=
  m.toJson.compact.toUTF8

/-- Reads the bytes of a sidecar. -/
def decode? (b : ByteArray) : Option Sidecar :=
  (Json.decodeBytes record.read b).toOption

/-- What the index keeps of a sidecar. -/
def indexed (m : Sidecar) : IndexedEntry :=
  ⟨m.key, m.timestamp, m.size⟩

instance : Json.Form Sidecar := ⟨toJson, record.read⟩

end Sidecar

/-- What the disk layer holds. -/
structure DiskStats where
  entries : Nat
  totalSize : UInt64
  maxSize : UInt64
  deriving DecidableEq, Repr

def DiskStats.toJson (s : DiskStats) : Json :=
  .object [("entries", .ofNat s.entries), ("total_size", .ofWord s.totalSize),
    ("max_size", .ofWord s.maxSize)]

/-- The disk layer. -/
structure DiskCache where
  directory : String
  /-- The bytes that all values together may take. -/
  maxSize : UInt64
  index : DiskIndex := {}
  /-- Whether the index has been made from the directory. -/
  seeded : Bool := false
  deriving Inhabited

namespace DiskCache

/-- The endings of the two files of an entry, and of a file that is being written. -/
def valueEnding : String := ".json"

@[inherit_doc valueEnding]
def sidecarEnding : String := ".meta.json"

@[inherit_doc valueEnding]
def unfinishedEnding : String := ".tmp"

/-- A disk layer whose directory has not been looked at. -/
def new (s : DiskSettings) : DiskCache :=
  { directory := s.directory, maxSize := s.maxSize }

/-- The name of the directory of a digest: its first two bytes. -/
def shard? (digest : String) : Option String :=
  match digest.toList with
  | a :: b :: _ =>
    if a.utf8Size = 1 ∧ b.utf8Size = 1 then some (String.ofList [a, b])
    else if a.utf8Size = 2 then some (String.ofList [a])
    else none
  | [a] => if a.utf8Size = 2 then some (String.ofList [a]) else none
  | [] => none

def withoutEnding? (ending name : String) : Option String :=
  let n := name.toList
  let e := ending.toList
  if e.isSuffixOf n then some (String.ofList (n.take (n.length - e.length))) else none

/-- The path of a file of an entry. -/
def entryPath (c : DiskCache) (shard digest ending : String) : String :=
  Path.join (Path.join c.directory shard) (digest ++ ending)

/-- The path of the value of a key. -/
def valuePath (c : DiskCache) (key : String) : String :=
  c.entryPath ((shard? (keyDigest key)).getD "") (keyDigest key) valueEnding

/-- The path of the sidecar of a key. -/
def sidecarPath (c : DiskCache) (key : String) : String :=
  c.entryPath ((shard? (keyDigest key)).getD "") (keyDigest key) sidecarEnding

end DiskCache

/-- A disk layer and the drive it is on. -/
structure DiskState where
  cache : DiskCache
  drive : Drive
  deriving Inhabited

/-- Operations of the disk layer. A failure leaves what was done before it. -/
abbrev DiskM := ExceptT CacheError (StateM DiskState)

namespace DiskM

/-- Carries out an operation on files. -/
def files {α : Type} (op : FileM α) : DiskM α := do
  let s ← get
  let (a, drive) := op.run s.drive
  set { s with drive }
  return a

/-- Carries out an operation on a file, whose failure is a failure of the cache. -/
def file {α : Type} (path : String) (op : FileM (Except OsError α)) : DiskM α := do
  match ← files op with
  | .ok a => return a
  | .error e => throw (.io path e)

def modifyIndex (f : DiskIndex → DiskIndex) : DiskM Unit :=
  modify fun s => { s with cache := { s.cache with index := f s.cache.index } }

end DiskM

namespace DiskCache

open DiskM

/-- The path of a file of an entry, if its digest names a directory. -/
def entryPathM (digest ending : String) : DiskM String := do
  match shard? digest with
  | some shard => return (← get).cache.entryPath shard digest ending
  | none => throw (.noShard digest)

/-- Takes away a file that may be gone already. -/
def removeIfPresent (path : String) : DiskM Unit := do
  match ← files (FileM.removeFile path) with
  | .ok _ => return
  | .error .notFound => return
  | .error e => throw (.io path e)

/-- Takes away both files of an entry. -/
def removeFiles (digest : String) : DiskM Unit := do
  removeIfPresent (← entryPathM digest valueEnding)
  removeIfPresent (← entryPathM digest sidecarEnding)

/-- Forgets an entry and takes away its files. -/
def removeDigest (digest : String) : DiskM Unit := do
  modifyIndex (·.remove digest)
  removeFiles digest

/-- What a sidecar is found to be. -/
inductive SidecarRead where
  | missing
  | corrupt
  | found (m : Sidecar)

def readSidecar (path : String) : DiskM SidecarRead := do
  match ← files (FileM.readFile path) with
  | .ok bytes =>
    match Sidecar.decode? bytes with
    | some m => return .found m
    | none => return .corrupt
  | .error .notFound => return .missing
  | .error e => throw (.io path e)

/-! ## Reading -/

/-- The stored value of a key. An entry that cannot be read or is of another version is taken
away. -/
def get (key : String) : DiskM (Option ByteArray) := do
  let digest := keyDigest key
  match ← readSidecar (← entryPathM digest sidecarEnding) with
  | .missing => return none
  | .corrupt =>
    removeDigest digest
    return none
  | .found m =>
    if m.version ≠ Sidecar.currentVersion then
      removeDigest digest
      return none
    else if m.key ≠ key then return none
    else
      let path ← entryPathM digest valueEnding
      match ← files (FileM.readFile path) with
      | .ok bytes => return some bytes
      | .error .notFound =>
        removeDigest digest
        return none
      | .error e => throw (.io path e)

/-- The stored value of a key, read as a typed value. -/
def getDecoded {α : Type} (read : Json.Origin → Json.Outline → Json.Decoded α) (key : String) :
    DiskM (Option α) := do
  match ← get key with
  | none => return none
  | some bytes =>
    match Json.decodeBytes read bytes with
    | .ok a => return some a
    | .error f => throw (.json f)

/-! ## The index -/

/-- The entry that a name in the directory `path` stands for. What can belong to no entry is taken
away, but for the values: they go only if their sidecar is not among `all` names. -/
def scanName (path : String) (all : List String) (name : String) :
    DiskM (List (String × IndexedEntry)) :=
  if (withoutEnding? unfinishedEnding name).isSome then do
    removeIfPresent (Path.join path name)
    return []
  else
    match withoutEnding? sidecarEnding name with
    | some digest => do
      match ← readSidecar (Path.join path name) with
      | .missing => return []
      | .found m =>
        if m.version = Sidecar.currentVersion then return [(digest, m.indexed)]
        else
          removeFiles digest
          return []
      | .corrupt =>
        removeFiles digest
        return []
    | none =>
      match withoutEnding? valueEnding name with
      | some digest =>
        if all.contains (digest ++ sidecarEnding) then return []
        else do
          removeIfPresent (Path.join path name)
          return []
      | none => return []

/-- The entries in the directory `path` that the names stand for. -/
def scanNames (path : String) (all : List String) :
    List String → DiskM (List (String × IndexedEntry))
  | [] => return []
  | name :: rest => do
    let here ← scanName path all name
    return here ++ (← scanNames path all rest)

/-- The entries in the sub-directory `path`, if it is one. -/
def scanShard (path : String) : DiskM (List (String × IndexedEntry)) := do
  let kind ← file path (FileM.reading (·.linkMetadata path))
  if kind.isDirectory then
    let names ← file path (FileM.readDir path)
    scanNames path names names
  else return []

/-- The entries in the sub-directories of the given names. -/
def scanShards (directory : String) : List String → DiskM (List (String × IndexedEntry))
  | [] => return []
  | name :: rest => do
    let here ← scanShard (Path.join directory name)
    return here ++ (← scanShards directory rest)

/-- Every entry in the directory of the cache. -/
def scan : DiskM (List (String × IndexedEntry)) := do
  let directory := (← MonadState.get).cache.directory
  match ← files (FileM.readDir directory) with
  | .ok names => scanShards directory names
  | .error .notFound => return []
  | .error e => throw (.io directory e)

/-- Makes the index from the directory unless it has been made. -/
def ensureIndex : DiskM Unit := do
  if !(← MonadState.get).cache.seeded then
    match DiskIndex.ofList? (← scan) with
    | none => throw .overflow
    | some index =>
      modify fun s => { s with cache := { s.cache with index, seeded := true } }

/-! ## Writing -/

/-- Writes a file under another name and moves it to its place. -/
def writeWhole (path : String) (content : ByteArray) : DiskM Unit := do
  let unfinished := path ++ unfinishedEnding
  file unfinished (FileM.writeFile unfinished content)
  file path (FileM.rename unfinished path)

/-- Writes both files of an entry. -/
def writeEntry (digest : String) (content : ByteArray) (m : Sidecar) : DiskM Unit := do
  let shard := Path.join (← MonadState.get).cache.directory ((shard? digest).getD "")
  file shard (FileM.makeDirs shard)
  writeWhole (← entryPathM digest valueEnding) content
  writeWhole (← entryPathM digest sidecarEnding) m.encode

/-- Takes away the files of entries in turn. -/
def removeVictims : List (String × IndexedEntry) → DiskM Unit
  | [] => return
  | v :: rest => do
    removeFiles v.1
    removeVictims rest

/-- Stores a value at a time, unless it is larger than the whole cache. The oldest entries go to
make room. -/
def set (now : UInt64) (key : String) (content : ByteArray) : DiskM Bool := do
  let size := UInt64.ofNat content.size
  if (← MonadState.get).cache.maxSize < size then return false
  ensureIndex
  let digest := keyDigest key
  let s ← MonadState.get
  match s.cache.index.reserve digest ⟨key, now, size⟩ s.cache.maxSize with
  | none =>
    modifyIndex (·.remove digest)
    throw .overflow
  | some (victims, index) =>
    modifyIndex fun _ => index
    removeVictims victims
    tryCatch (writeEntry digest content ⟨key, now, size, Sidecar.currentVersion⟩) fun e => do
      modifyIndex (·.remove digest)
      throw e
    return true

/-- Stores the text of a value. -/
def setJson (now : UInt64) (key : String) (v : Json) : DiskM Bool :=
  set now key v.compact.toUTF8

/-- Takes away the entry of a key. -/
def remove (key : String) : DiskM Unit :=
  removeDigest (keyDigest key)

/-- Takes away what is in the directory under the given names. -/
def clearNames (directory : String) : List String → DiskM Unit
  | [] => return
  | name :: rest => do
    let path := Path.join directory name
    let kind ← file path (FileM.reading (·.linkMetadata path))
    if kind.isDirectory then file path (FileM.removeTree path)
    else file path (FileM.removeFile path)
    clearNames directory rest

/-- Takes away everything in the directory of the cache. -/
def clear : DiskM Unit := do
  let directory := (← MonadState.get).cache.directory
  match ← files (FileM.readDir directory) with
  | .error .notFound => return
  | .error e => throw (.io directory e)
  | .ok names =>
    clearNames directory names
    modifyIndex fun _ => {}

def stats : DiskM DiskStats := do
  ensureIndex
  let c := (← MonadState.get).cache
  return ⟨c.index.entries.size, c.index.totalSize, c.maxSize⟩

end DiskCache

end CodeGraph.Cache
