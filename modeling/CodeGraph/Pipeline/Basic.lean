import CodeGraph.Graph.Basic
import CodeGraph.Pipeline.Report
import CodeGraph.Repository.Store

/-!
# Runs over a codebase

A run parses with every extension, merges what they give into a graph, lets every extension whose
parsing succeeded link the nodes of that graph, and stores the graph. No linking starts before all
parsing has ended, so each linking sees the same nodes.

Extensions are merged in their order, whichever way their parsing took turns. A phase that fails
adds nothing and does not end the run; only a failure of the repository does.
-/

namespace CodeGraph

/-- Why a run gives no graph. -/
inductive PipelineError where
  | repository (error : RepositoryError)

def PipelineError.message : PipelineError → String
  | .repository e => "graph repository failed: " ++ e.message

/-- The wording of an error and of what it was caused by. -/
def PipelineError.reasons (e : PipelineError) : List String :=
  match e with
  | .repository cause => e.message :: cause.reasons

/-- Extensions in the order of their runs. -/
structure Pipeline where
  extensions : List Extension
  /-- The settings of extensions by name. -/
  settings : NameMap Json := .empty
  /-- Whether extensions that wait let others parse in the meantime. -/
  concurrent : Bool := false

/-- The graph of a run and how the extensions fared. -/
structure Run where
  graph : PropertyGraph
  report : Report

namespace Pipeline

/-- The settings of an extension, null without any. -/
def settingsOf (p : Pipeline) (e : Extension) : Json :=
  (p.settings.get? e.info.name).getD .null

/-- Sets the settings for an extension of a name. -/
def withSettings (p : Pipeline) (name : String) (settings : Json) : Pipeline :=
  { p with settings := p.settings.insert name settings }

/-! ## Parsing -/

/-- An extension and how its parsing has ended, if it has. -/
abbrev Turn := Extension × Option (Except PhaseFailure ExtensionOutput)

/-- Parses with those extensions that are due and have not parsed yet. -/
def parseDue (p : Pipeline) (root : String) (due : Extension → Bool) :
    List Turn → StateM Session (List Turn)
  | [] => return []
  | (e, some r) :: rest => do
    return (e, some r) :: (← parseDue p root due rest)
  | (e, none) :: rest => do
    if due e then
      let r ← (e.parse ⟨root, p.settingsOf e⟩).run
      return (e, some r) :: (← parseDue p root due rest)
    else return (e, none) :: (← parseDue p root due rest)

/-- The visits of those extensions that have parsed. -/
def visitsOf (turns : List Turn) : List Visit :=
  turns.filterMap fun (e, r) => r.map fun parsed => { extension := e, parsed }

/-- Parses with all extensions. Side by side those that do not wait come first. -/
def parseAll (p : Pipeline) (root : String) : StateM Session (List Visit) := do
  let turns := p.extensions.map fun e => ((e, none) : Turn)
  let turns ← p.parseDue root (fun e => !(p.concurrent && e.waits)) turns
  let turns ← p.parseDue root (fun _ => true) turns
  return visitsOf turns

/-! ## Merging -/

/-- A node with its producer, which is the extension unless the node names another one. -/
def stampNode (i : ExtensionInfo) (now : UInt64) (n : Node) : Node :=
  { n with provenance := some (n.provenance.getD (i.provenance now)) }

/-- An edge with its producer, which is the extension unless the edge names another one. -/
def stampEdge (i : ExtensionInfo) (now : UInt64) (e : Edge) : Edge :=
  { e with provenance := some (e.provenance.getD (i.provenance now)) }

/-- Notes an extension as a contributor. -/
def noteContributor (i : ExtensionInfo) (g : PropertyGraph) : PropertyGraph :=
  { g with metadata := g.metadata.recordExtension i.name }

/-- Adds edges of an extension and notes it as a contributor. -/
def addEdges (i : ExtensionInfo) (now : UInt64) (g : PropertyGraph) (l : List Edge) :
    PropertyGraph :=
  noteContributor i (g.pushEdges (l.map (stampEdge i now)))

/-- Adds what an extension has given. -/
def addOutput (i : ExtensionInfo) (now : UInt64) (g : PropertyGraph) (o : ExtensionOutput) :
    PropertyGraph :=
  addEdges i now (g.insertNodes (o.nodes.map (stampNode i now))) o.edges

/-- Adds what the parsing of a visit has given. -/
def mergeParsed (now : UInt64) (g : PropertyGraph) (v : Visit) : PropertyGraph :=
  match v.parsed with
  | .ok o => addOutput v.extension.info now g o
  | .error _ => g

/-! ## Linking -/

/-- Links with the extension of a visit, given all nodes, unless its parsing has failed. -/
def linkOne (p : Pipeline) (root : String) (nodes : GraphQuery) (g : PropertyGraph) (v : Visit) :
    StateM Session (PropertyGraph × Visit) := do
  match v.parsed with
  | .error _ => return (g, v)
  | .ok _ =>
    let r ← (v.extension.link ⟨root, p.settingsOf v.extension, nodes⟩).run
    let now := (← get).clock
    let g := match r with
      | .ok l => addEdges v.extension.info now g l
      | .error _ => g
    return (g, { v with linked := some r })

/-- Links with the extensions of visits in turn. -/
def linkAll (p : Pipeline) (root : String) (nodes : GraphQuery) (g : PropertyGraph) :
    List Visit → StateM Session (PropertyGraph × List Visit)
  | [] => return (g, [])
  | v :: rest => do
    let (g, v) ← p.linkOne root nodes g v
    let (g, rest) ← linkAll p root nodes g rest
    return (g, v :: rest)

/-! ## Runs -/

/-- Makes the graph of a codebase. -/
def graphOf (p : Pipeline) (root : String) : StateM Session Run := do
  let started := (← get).clock
  let visits ← p.parseAll root
  let now := (← get).clock
  let merged := visits.foldl (mergeParsed now) (.new (.new root started))
  let (graph, visits) ← p.linkAll root ⟨merged.nodes⟩ merged visits
  return ⟨graph, .ofVisits visits⟩

/-- What a run works on. -/
structure Workshop where
  session : Session
  repository : Repository

/-- Carries out an operation on the drive of a workshop. -/
def Workshop.onFiles {α : Type} (op : FileM α) : StateM Workshop α :=
  modifyGet fun w =>
    let (a, drive) := op.run w.session.drive
    (a, { w with session := { w.session with drive } })

/-- Makes the graph of a codebase and stores it. -/
def run (p : Pipeline) (root : String) : StateM Workshop (Except PipelineError Run) := do
  let r ← modifyGet fun w =>
    let (r, session) := (p.graphOf root).run w.session
    (r, { w with session })
  match ← Workshop.onFiles ((← get).repository.save r.graph).run with
  | .ok repository =>
    modify fun w => { w with repository }
    return .ok r
  | .error e => return .error (.repository e)

/-- The progress of a run: after each phase of each extension, how many of all phases are done. A
phase that is left out counts as done. -/
def progress (p : Pipeline) : List (Nat × Nat) :=
  let total := 2 * p.extensions.length
  (List.range total).map fun n => (n + 1, total)

end Pipeline

end CodeGraph
