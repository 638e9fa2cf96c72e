import CodeGraph.Extension.Basic

/-!
# The report of a run

What each extension has added to the graph, in the order of the extensions, and which phases have
failed, those of parsing before those of linking.
-/

namespace CodeGraph

/-- A phase of a run. -/
inductive Phase where
  | parse
  | link
  deriving DecidableEq, Repr

def Phase.name : Phase → String
  | .parse => "parse"
  | .link => "link"

/-- How an extension fared in a run. -/
structure Visit where
  extension : Extension
  parsed : Except PhaseFailure ExtensionOutput
  /-- How linking ended; it is left out where parsing has failed. -/
  linked : Option (Except PhaseFailure (List Edge)) := none

/-- What an extension has added to a graph. -/
structure Contribution where
  extensionName : String
  nodes : Nat := 0
  parseEdges : Nat := 0
  linkEdges : Nat := 0
  deriving DecidableEq, Repr

/-- A phase of an extension that has failed. -/
structure FailedPhase where
  extensionName : String
  phase : Phase
  message : String
  deriving DecidableEq, Repr

/-- What came of a run. -/
structure Report where
  contributions : List Contribution := []
  failures : List FailedPhase := []
  deriving DecidableEq, Repr

namespace Visit

def name (v : Visit) : String :=
  v.extension.info.name

/-- What the extension has added; a phase that failed has added nothing. -/
def contribution (v : Visit) : Contribution where
  extensionName := v.name
  nodes := (v.parsed.toOption.map (·.nodes.length)).getD 0
  parseEdges := (v.parsed.toOption.map (·.edges.length)).getD 0
  linkEdges := ((v.linked.bind (·.toOption)).map (·.length)).getD 0

/-- The failure of parsing, if it failed. -/
def parseFailure? (v : Visit) : Option FailedPhase :=
  match v.parsed with
  | .error e => some ⟨v.name, .parse, e.message⟩
  | .ok _ => none

/-- The failure of linking, if it failed. -/
def linkFailure? (v : Visit) : Option FailedPhase :=
  match v.linked with
  | some (.error e) => some ⟨v.name, .link, e.message⟩
  | _ => none

end Visit

def Contribution.toJson (c : Contribution) : Json :=
  .object [("extension", .string c.extensionName), ("nodes", .ofNat c.nodes),
    ("parse_edges", .ofNat c.parseEdges),
    ("link_edges", .ofNat c.linkEdges)]

/-- The object of a failed phase. -/
def FailedPhase.toJson (f : FailedPhase) : Json :=
  .object [("extension", .string f.extensionName), ("phase", .string f.phase.name),
    ("message", .string f.message)]

namespace Report

def ofVisits (l : List Visit) : Report where
  contributions := l.map (·.contribution)
  failures := l.filterMap (·.parseFailure?) ++ l.filterMap (·.linkFailure?)

def isClean (r : Report) : Bool :=
  r.failures.isEmpty

/-- Whether a phase of an extension has failed. -/
def failed (r : Report) (extensionName : String) (phase : Phase) : Bool :=
  r.failures.any fun f => f.extensionName == extensionName && f.phase == phase

def toJson (r : Report) : Json :=
  .object [("contributions", .array (r.contributions.map (·.toJson))),
    ("failures", .array (r.failures.map (·.toJson)))]

end Report

end CodeGraph
