import CodeGraph.Repository.Basic
import CodeGraph.Volume.Access

/-!
# A repository of files

Each graph is a document in a file of its own, `<identifier>.json` in one directory. Only
identifiers of letters, digits, `_`, `-` and `.` that do not start with a point are names of files.
A document is written under another name first. A listing reads no more than the metadata and passes
over files that do not have any.
-/

namespace CodeGraph

/-- Graphs kept in the files of a directory. -/
structure FileRepository where
  directory : String
  deriving DecidableEq, Repr, Inhabited

namespace FileRepository

/-- Operations on the files of a repository. -/
abbrev RepositoryM := ExceptT RepositoryError FileM

/-- Whether an identifier can be the name of a file. -/
def isValidId (id : String) : Bool :=
  let cs := id.toList
  !cs.isEmpty && cs.all (fun c => c.isAlphanum || c == '_' || c == '-' || c == '.') &&
    cs.head? != some '.'

/-- The name of the document of an identifier. -/
def documentName (id : String) : String :=
  id ++ ".json"

/-- Refuses an identifier that cannot be the name of a file. -/
def checkId (id : String) : RepositoryM Unit := do
  if !isValidId id then throw (.invalidId id)

/-- Carries out an operation on a file, whose failure is a failure of the repository. -/
def file {α : Type} (path : String) (op : FileM (Except OsError α)) : RepositoryM α := do
  match ← ExceptT.lift op with
  | .ok a => return a
  | .error e => throw (.io path e)

/-- Stores a graph, replacing one of the same identifier. -/
def save (r : FileRepository) (g : PropertyGraph) : RepositoryM Unit := do
  checkId g.id
  let path := Path.join r.directory (documentName g.id)
  let unfinished := Path.withExtension path "json.tmp"
  file r.directory (FileM.makeDirs r.directory)
  file unfinished (FileM.writeFile unfinished (g.toJson.pretty 0).toUTF8)
  file path (FileM.rename unfinished path)

def findById (r : FileRepository) (id : String) : RepositoryM (Option PropertyGraph) := do
  checkId id
  let path := Path.join r.directory (documentName id)
  match ← ExceptT.lift (FileM.readFile path) with
  | .error .notFound => return none
  | .error e => throw (.io path e)
  | .ok bytes =>
    match Json.decodeBytes PropertyGraph.read bytes with
    | .ok g => return some g
    | .error f => throw (.json f)

/-- A document of which only the metadata is read. -/
def metadataRecord : Json.Record GraphMetadata where
  name := "MetadataOnly"
  start := default
  fields := [.needed "metadata" GraphMetadata.read fun x _ => x]

/-- The metadata in the files of the given names, those passed over that have none. -/
def scanNames (r : FileRepository) : List String → RepositoryM (List GraphMetadata)
  | [] => return []
  | name :: rest => do
    let path := Path.join r.directory name
    if Path.fileExtension? path = some "json" then
      let bytes ← file path (FileM.readFile path)
      match Json.decodeBytes metadataRecord.read bytes with
      | .ok m => return m :: (← scanNames r rest)
      | .error _ => scanNames r rest
    else scanNames r rest

/-- The metadata of every readable document. -/
def scan (r : FileRepository) : RepositoryM (List GraphMetadata) := do
  match ← ExceptT.lift (FileM.readDir r.directory) with
  | .ok names => scanNames r names
  | .error .notFound => return []
  | .error e => throw (.io r.directory e)

/-- The latest graph of a codebase. -/
def findByCodebase (r : FileRepository) (codebase : String) :
    RepositoryM (Option PropertyGraph) := do
  match GraphMetadata.latest? ((← scan r).filter fun m => m.codebase == codebase) with
  | some m => findById r m.id
  | none => return none

/-- Takes a document away, and tells whether it was there. -/
def delete (r : FileRepository) (id : String) : RepositoryM Bool := do
  checkId id
  let path := Path.join r.directory (documentName id)
  match ← ExceptT.lift (FileM.removeFile path) with
  | .ok _ => return true
  | .error .notFound => return false
  | .error e => throw (.io path e)

/-- The metadata of all documents, the oldest first. -/
def list (r : FileRepository) : RepositoryM (List GraphMetadata) := do
  return GraphMetadata.oldestFirst (← scan r)

/-- Whether there is a document of an identifier. -/
def contains (r : FileRepository) (id : String) : RepositoryM Bool := do
  checkId id
  let path := Path.join r.directory (documentName id)
  file path (FileM.tryExists path)

end FileRepository

end CodeGraph
