import CodeGraph.Extension.FileTree
import CodeGraph.Extension.TestLinks

/-!
# Extensions by name

The extensions that come with the program, found by their names.
-/

namespace CodeGraph.Extension

/-- The extensions that come with the program. -/
def builtin : List Extension :=
  [FileTree.extension, TestLinks.extension]

def ofName? (name : String) : Option Extension :=
  builtin.find? fun e => e.info.name == name

/-- The diagnostic for a name that no extension has. -/
def unknownMessage (name : String) : String :=
  "Unknown extension '" ++ name ++ "' (available: " ++
    ", ".intercalate (builtin.map (·.info.name)) ++ ")"

/-- Extensions by their names, or the first name that none has. -/
def ofNames (names : List String) : Except String (List Extension) :=
  names.mapM fun name =>
    match ofName? name with
    | some e => .ok e
    | none => .error name

end CodeGraph.Extension
