import CodeGraph.Json.Decode

/-!
# The vocabulary

Every node and every edge has one type from a closed vocabulary. Finer distinctions are labels.
A name determines its type (`NodeType.ofName?_name`, `EdgeType.ofName?_name`).
-/

namespace CodeGraph

/-- What a node is. -/
inductive NodeType where
  /-- A source file. -/
  | file
  /-- A module or compilation unit. -/
  | moduleUnit
  /-- A namespace or package. -/
  | namespaceUnit
  /-- A class declaration. -/
  | classDecl
  /-- An interface or trait. -/
  | interfaceDecl
  /-- An enumeration. -/
  | enumeration
  /-- A type alias. -/
  | typeAlias
  /-- A free function. -/
  | function
  /-- A method bound to a type. -/
  | method
  /-- A property or field. -/
  | property
  /-- A variable or constant. -/
  | variable
  /-- A parameter of a function. -/
  | parameter
  /-- An import declaration. -/
  | importDecl
  /-- An export declaration. -/
  | exportDecl
  /-- A directory on disk. -/
  | fsDirectory
  /-- A file on disk. -/
  | fsFile
  /-- The root of a repository. -/
  | gitRepository
  /-- A commit. -/
  | gitCommit
  /-- The author of commits. -/
  | gitAuthor
  /-- A branch. -/
  | gitBranch
  /-- A tag. -/
  | gitTag
  /-- A group of tests. -/
  | testSuite
  /-- A single test. -/
  | testCase
  deriving DecidableEq, Repr, Inhabited

namespace NodeType

/-- The name of a type in documents and in queries. -/
def name : NodeType → String
  | .file => "file"
  | .moduleUnit => "module"
  | .namespaceUnit => "namespace"
  | .classDecl => "class"
  | .interfaceDecl => "interface"
  | .enumeration => "enum"
  | .typeAlias => "type_alias"
  | .function => "function"
  | .method => "method"
  | .property => "property"
  | .variable => "variable"
  | .parameter => "parameter"
  | .importDecl => "import"
  | .exportDecl => "export"
  | .fsDirectory => "fs_directory"
  | .fsFile => "fs_file"
  | .gitRepository => "git_repository"
  | .gitCommit => "git_commit"
  | .gitAuthor => "git_author"
  | .gitBranch => "git_branch"
  | .gitTag => "git_tag"
  | .testSuite => "test_suite"
  | .testCase => "test_case"

/-- Every type, in the order of declaration. -/
def all : List NodeType :=
  [.file, .moduleUnit, .namespaceUnit, .classDecl, .interfaceDecl, .enumeration, .typeAlias,
    .function, .method, .property, .variable, .parameter, .importDecl, .exportDecl,
    .fsDirectory, .fsFile, .gitRepository, .gitCommit, .gitAuthor, .gitBranch, .gitTag,
    .testSuite, .testCase]

/-- The place of a type in the order of declaration. -/
def position (t : NodeType) : Nat :=
  all.idxOf t

def named : List (String × NodeType) :=
  all.map fun t => (t.name, t)

def ofName? (s : String) : Option NodeType :=
  named.lookup s

/-- A name that is not in the vocabulary. -/
def unknownMessage (s : String) : String :=
  "unknown node type '" ++ s ++ "'"

def toJson (t : NodeType) : Json :=
  .string t.name

/-- Reads a type by its name. -/
def read (o : Json.Origin) (v : Json.Outline) : Json.Decoded NodeType :=
  Json.readVariant named o v

theorem ofName?_name (t : NodeType) : ofName? t.name = some t := by
  cases t <;> decide

instance : Json.Form NodeType := ⟨toJson, read⟩

end NodeType

/-- What an edge says about its ends. -/
inductive EdgeType where
  /-- One component needs another. -/
  | dependsOn
  /-- A module or symbol is brought in. -/
  | imports
  /-- A symbol is given out. -/
  | exports
  /-- A container holds a part. -/
  | contains
  /-- A callable calls another. -/
  | calls
  /-- A class inherits from another. -/
  | extends
  /-- A type implements an interface. -/
  | implements
  /-- Any other reference. -/
  | references
  /-- A structural parent. -/
  | parentOf
  /-- A value or type is used. -/
  | uses
  /-- A test exercises its subject. -/
  | tests
  /-- A commit touches a file. -/
  | modifies
  /-- A commit has an author. -/
  | authoredBy
  deriving DecidableEq, Repr, Inhabited

namespace EdgeType

/-- The name of a type in documents and in queries. -/
def name : EdgeType → String
  | .dependsOn => "depends_on"
  | .imports => "imports"
  | .exports => "exports"
  | .contains => "contains"
  | .calls => "calls"
  | .extends => "extends"
  | .implements => "implements"
  | .references => "references"
  | .parentOf => "parent_of"
  | .uses => "uses"
  | .tests => "tests"
  | .modifies => "modifies"
  | .authoredBy => "authored_by"

/-- Every type, in the order of declaration. -/
def all : List EdgeType :=
  [.dependsOn, .imports, .exports, .contains, .calls, .extends, .implements, .references,
    .parentOf, .uses, .tests, .modifies, .authoredBy]

def named : List (String × EdgeType) :=
  all.map fun t => (t.name, t)

def ofName? (s : String) : Option EdgeType :=
  named.lookup s

/-- A name that is not in the vocabulary. -/
def unknownMessage (s : String) : String :=
  "unknown edge type '" ++ s ++ "'"

def toJson (t : EdgeType) : Json :=
  .string t.name

/-- Reads a type by its name. -/
def read (o : Json.Origin) (v : Json.Outline) : Json.Decoded EdgeType :=
  Json.readVariant named o v

theorem ofName?_name (t : EdgeType) : ofName? t.name = some t := by
  cases t <;> decide

instance : Json.Form EdgeType := ⟨toJson, read⟩

end EdgeType

end CodeGraph
