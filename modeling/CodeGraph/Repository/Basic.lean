import CodeGraph.Graph.Basic
import CodeGraph.Json.Printer
import CodeGraph.Volume.Basic

/-!
# Repositories

A repository keeps finished graphs by identifier. Of the graphs of one codebase the latest is the
one with the greatest time and, of equal times, the greatest identifier; a listing goes from the
oldest graph to the latest.

The graphs may be kept in memory, where no operation fails.
-/

namespace CodeGraph

/-- Why a repository operation fails. -/
inductive RepositoryError where
  | io (path : String) (error : OsError)
  | json (failure : Json.Failure)
  /-- The identifier cannot be the name of a file. -/
  | invalidId (id : String)

namespace RepositoryError

/-- The wording of an error, the reason a text cannot be read left out. -/
def message : RepositoryError → String
  | .io path e => "repository I/O error at '" ++ path ++ "': " ++ e.message
  | .json f => "repository serialization error: " ++ f.message Json.doubleText
  | .invalidId id => "invalid graph id '" ++ id ++ "'"

/-- The wording of an error and of what it was caused by. -/
def reasons (e : RepositoryError) : List String :=
  match e with
  | .io _ cause => [e.message, cause.message]
  | .json cause => [e.message, cause.message Json.doubleText]
  | .invalidId _ => [e.message]

end RepositoryError

/-- The later of the graphs of a list. -/
def GraphMetadata.latest? (l : List GraphMetadata) : Option GraphMetadata :=
  l.foldl (fun best m =>
    match best with
    | none => some m
    | some b => if b.precedes m then some m else some b) none

/-- A listing from the oldest graph to the latest. -/
def GraphMetadata.oldestFirst (l : List GraphMetadata) : List GraphMetadata :=
  l.mergeSort GraphMetadata.precedes

/-! ## In memory -/

/-- Graphs kept in memory. -/
structure MemoryRepository where
  graphs : NameMap PropertyGraph := .empty
  deriving Inhabited

namespace MemoryRepository

/-- Stores a graph, replacing one of the same identifier. -/
def save (r : MemoryRepository) (g : PropertyGraph) : MemoryRepository :=
  ⟨r.graphs.insert g.id g⟩

def findById (r : MemoryRepository) (id : String) : Option PropertyGraph :=
  r.graphs.get? id

def metadata (r : MemoryRepository) : List GraphMetadata :=
  r.graphs.values.map (·.metadata)

/-- The latest graph of a codebase. -/
def findByCodebase (r : MemoryRepository) (codebase : String) : Option PropertyGraph :=
  (GraphMetadata.latest? (r.metadata.filter fun m => m.codebase == codebase)).bind fun m =>
    r.findById m.id

/-- Drops a graph, and tells whether it was there. -/
def delete (r : MemoryRepository) (id : String) : Bool × MemoryRepository :=
  (r.graphs.contains id, ⟨r.graphs.erase id⟩)

/-- The metadata of all graphs, the oldest first. -/
def list (r : MemoryRepository) : List GraphMetadata :=
  GraphMetadata.oldestFirst r.metadata

/-- Whether there is a graph of an identifier. -/
def contains (r : MemoryRepository) (id : String) : Bool :=
  r.graphs.contains id

def size (r : MemoryRepository) : Nat :=
  r.graphs.size

def isEmpty (r : MemoryRepository) : Bool :=
  r.graphs.isEmpty

end MemoryRepository

end CodeGraph
