import CodeGraph.Extension.Basic
import CodeGraph.Pattern.Reader
import CodeGraph.Pattern.Search

/-!
# Links from tests to what they test

This extension gives no nodes. Among all files it tells by their names which are tests: a pattern
matches the name without its extension, and what the group `stem` of the pattern takes is the name
of the file under test. A test is linked to every file of that name and of its own extension that is
not a test itself.
-/

namespace CodeGraph.TestLinks

def name : String := "test-files"

/-- The group that takes the name of the file under test. -/
def group : String := "stem"

/-- The settings of the extension. -/
structure Settings where
  /-- The patterns, in the order in which they are tried. -/
  patterns : List String := [
    "^test_(?P<stem>.+)$",
    "^(?P<stem>.+)_test$",
    "^(?P<stem>.+)\\.(?:test|spec)$",
    "^(?P<stem>.+)Test$"]
  deriving Repr, Inhabited

def Settings.record : Json.Record Settings where
  name := "TestFileSettings"
  start := {}
  fields := [
    .defaulted "patterns" (Json.readList Json.readString) fun x s => { s with patterns := x }]

/-- Why settings are refused. -/
inductive SettingsError where
  | unreadable (reason : String)
  | badPattern (pattern : String)
  /-- A pattern does not tell the name of the file under test. -/
  | noGroup (pattern : String)

def SettingsError.reasons : SettingsError → List String
  | .unreadable reason => ["invalid test-files settings", reason]
  | .badPattern p => ["invalid test pattern '" ++ p ++ "'"]
  | .noGroup p => ["test pattern '" ++ p ++ "' has no '" ++ group ++ "' group"]

def readPattern (p : String) : Except SettingsError Pattern :=
  match Pattern.ofText? p with
  | none => .error (.badPattern p)
  | some pattern =>
    if pattern.groupNames.contains group then .ok pattern else .error (.noGroup p)

def readPatterns (settings : Json) : Except SettingsError (List Pattern) := do
  let s ← (Extension.settings Settings.record settings).mapError .unreadable
  s.patterns.mapM readPattern

/-- The name and the extension of a file; without a point inside the name the extension is empty. -/
def splitName (name : String) : String × String :=
  let (stem, ext) := Path.splitName name
  (stem, ext.getD "")

/-- The name of the file under test, told by the first pattern that takes one. -/
def testedStem? (patterns : List Pattern) (stem : String) : Option String :=
  patterns.findSome? fun p => (p.capture? stem).bind fun groups => groups.get? group

/-- A file by its name: the name without the extension, the extension, and if the file is a test the
name of what it tests. -/
structure NamedFile where
  node : Node
  stem : String
  ext : String
  tested : Option String

/-- A file by its name, given how tests tell what they test. -/
def named (tested? : String → Option String) (file : Node) : NamedFile :=
  let (stem, ext) := splitName file.name
  ⟨file, stem, ext, tested? stem⟩

/-- The pairs of a test and a file under test, with the name that they share. -/
def pairs (files : List NamedFile) : List (Node × Node × String) :=
  files.flatMap fun test =>
    match test.tested with
    | none => []
    | some target =>
      (files.filter fun f => f.tested.isNone && f.stem == target && f.ext == test.ext).map fun f =>
        (test.node, f.node, target)

def edgeOf (pair : Node × Node × String) : PhaseM Edge := do
  let (test, file, stem) := pair
  let id ← PhaseM.edgeId .tests test.id file.id
  return {
    id, type := .tests, source := test.id, target := file.id
    metadata := ({} : EdgeMetadata).withExtra "matched_stem" (.string stem) }

/-- The patterns of settings, or the failure of a phase. -/
def patternsOf (settings : Json) : PhaseM (List Pattern) :=
  match readPatterns settings with
  | .ok patterns => pure patterns
  | .error e => throw (.failed e.reasons)

/-- Checks the settings; there is nothing to parse. -/
def parse (c : ParseContext) : PhaseM ExtensionOutput := do
  let _ ← patternsOf c.settings
  return {}

/-- Links the tests among all files. -/
def link (c : LinkContext) : PhaseM (List Edge) := do
  let patterns ← patternsOf c.settings
  (pairs ((c.nodes.ofType .fsFile).map (named (testedStem? patterns)))).mapM edgeOf

def extension : Extension where
  info := ⟨name, "0.1.0", "testing"⟩
  edgeTypes := [⟨.tests, "Tests"⟩]
  parse
  link

end CodeGraph.TestLinks
