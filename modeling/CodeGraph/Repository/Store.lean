import CodeGraph.Repository.Files

/-!
# Repositories of both kinds

A repository keeps its graphs in memory or in files, and answers the same questions either way.
-/

namespace CodeGraph

/-- A repository. -/
inductive Repository where
  | memory (r : MemoryRepository)
  | files (r : FileRepository)

namespace Repository

/-- Stores a graph and gives the repository afterwards. -/
def save (g : PropertyGraph) : Repository → FileRepository.RepositoryM Repository
  | .memory r => pure (.memory (r.save g))
  | .files r => do
    r.save g
    return .files r

def findById (id : String) : Repository → FileRepository.RepositoryM (Option PropertyGraph)
  | .memory r => pure (r.findById id)
  | .files r => r.findById id

/-- The latest graph of a codebase. -/
def findByCodebase (codebase : String) :
    Repository → FileRepository.RepositoryM (Option PropertyGraph)
  | .memory r => pure (r.findByCodebase codebase)
  | .files r => r.findByCodebase codebase

/-- Drops a graph, and tells whether it was there. -/
def delete (id : String) : Repository → FileRepository.RepositoryM (Bool × Repository)
  | .memory r =>
    let (found, r) := r.delete id
    pure (found, .memory r)
  | .files r => do
    return (← r.delete id, .files r)

/-- Whether there is a graph of an identifier. -/
def contains (id : String) : Repository → FileRepository.RepositoryM Bool
  | .memory r => pure (r.contains id)
  | .files r => r.contains id

/-- The metadata of all graphs, the oldest first. -/
def list : Repository → FileRepository.RepositoryM (List GraphMetadata)
  | .memory r => pure r.list
  | .files r => r.list

end Repository

end CodeGraph
