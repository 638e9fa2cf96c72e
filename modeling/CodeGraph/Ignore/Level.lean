import CodeGraph.Ignore.Personal

/-!
# The rules about a path

A directory may have rules of three kinds, each in a file of its own. For each kind the rules of the
innermost directory count that say anything about a path, up to the root of the volume. Among the
kinds the first one that says anything decides, and the rules of the person who runs the program
come last.

Directories below and at the root of a walk are compared with paths as the walk spells them, those
above it with absolute paths.

The rules of the third kind belong to a repository and lie outside of what it tracks. The directory
of a repository may be elsewhere: then a file in its place names it, and what several such
directories have in common is in a directory that they name in turn (`commonDirectory?`).
-/

namespace CodeGraph.Ignore

/-- The rules of a directory, by kind, the kind that decides first in front. -/
structure Level where
  directory : String
  own : RuleSet
  shared : RuleSet
  excluded : RuleSet
  deriving Repr

/-- The first line of a file, if there is one and it is text. -/
def firstLine? (v : Volume) (path : String) : Option String :=
  match v.readFile path with
  | .ok content => ((splitLines content.toList).head?.bind lineText?).map String.ofList
  | .error _ => none

/-- What a file in the place of a repository's directory starts with. -/
def linkMark : String := "gitdir: "

/-- The directory of the repository in a directory, or what it shares with others if a file names
it. Relative names start from where the program runs, but for the shared directory's if it starts
with a point. -/
def commonDirectory? (v : Volume) (directory : String) : Option String :=
  let place := Path.join directory ".git"
  match v.metadata place with
  | .ok (.file _) => do
    let elsewhere ← after? linkMark (← firstLine? v place)
    let common ← firstLine? v (Path.join elsewhere "commondir")
    return if (after? "." common).isSome then Path.join elsewhere common else common
  | _ => some place

namespace Level

def ofDirectory (v : Volume) (directory : String) : Level where
  directory
  own := .ofFile v directory (Path.join directory ".ignore")
  shared := .ofFile v directory (Path.join directory ".gitignore")
  excluded :=
    match commonDirectory? v directory with
    | some common => .ofFile v directory (Path.join common "info/exclude")
    | none => { directory := withoutDot directory }

end Level

/-- The rules that may be about the paths of a walk, innermost directories first. -/
structure Levels where
  /-- The directories of the walk, as it spells them. -/
  inside : List Level
  /-- The directories above the root of the walk, by absolute paths. -/
  above : List Level
  /-- The absolute path of the root of the walk. -/
  base : String
  /-- The rules of the person who runs the program. -/
  personal : RuleSet

namespace Levels

/-- The paths above an absolute path, the innermost first. -/
def parents (path : String) : List String :=
  let names := Path.parts path
  (List.range names.length).reverse.map fun n => Path.ofParts true (names.take n)

/-- The rules at the root of a walk. -/
def ofRoot (v : Volume) (person : Person) (root : String) : Levels :=
  let inside := [Level.ofDirectory v root]
  let personal := person.rules v
  match v.canonical root with
  | .ok base => { inside, above := (parents base).map (Level.ofDirectory v), base, personal }
  | .error _ => { inside, above := [], base := "", personal }

/-- The rules one directory further in. -/
def enter (l : Levels) (v : Volume) (directory : String) : Levels :=
  { l with inside := .ofDirectory v directory :: l.inside }

/-- A path of the walk as an absolute path. -/
def absolute (l : Levels) (path : String) : String :=
  let root := (l.inside.getLast?.map (·.directory)).getD ""
  if Path.parts root = ["."] then Path.join l.base path
  else
    let below := (after? (withoutDot root) path).getD path
    Path.join l.base ((after? "/" below).getD below)

/-- What the rules of one kind say. -/
def verdictOf (l : Levels) (kind : Level → RuleSet) (path : String) (isDirectory : Bool) :
    Option Verdict :=
  (l.inside.findSome? fun level => (kind level).verdict? path isDirectory).or
    (l.above.findSome? fun level => (kind level).verdict? (l.absolute path) isDirectory)

/-- What the rules say about a path of the walk. -/
def verdict? (l : Levels) (path : String) (isDirectory : Bool) : Option Verdict :=
  let path := withoutDot path
  (((l.verdictOf (·.own) path isDirectory).or (l.verdictOf (·.shared) path isDirectory)).or
    (l.verdictOf (·.excluded) path isDirectory)).or (l.personal.verdict? path isDirectory)

end Levels

end CodeGraph.Ignore
