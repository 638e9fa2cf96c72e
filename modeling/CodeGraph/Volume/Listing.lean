import CodeGraph.NameMap
import CodeGraph.Volume.Basic

/-!
# Listings and changes

All that is below a directory, by path and seen through links, and laying out new entries with the
directories that they need. What has to be done to turn one volume into another: first what is no
longer there is taken away, the innermost first, and then what is new or different is put in place,
the outermost first.
-/

namespace CodeGraph.Volume

/-- An item at a path as it is seen there: a link as what it leads to, unless that is missing. -/
def seen (v : Volume) (path : String) : Item → Item
  | .link target =>
    match v.find true path with
    | .ok (_, i) => i
    | .error _ => .link target
  | i => i

/-- Everything below a directory by its path, which starts with that of the directory. Links are
seen as what they lead to. -/
def listing (v : Volume) (dir : String) : NameMap Item :=
  match v.find true dir with
  | .ok (real, .directory) =>
    .ofList ((v.entries.filter fun e => real.isPrefixOf e.1 && e.1 != real).map fun e =>
      let path := dir ++ "/" ++ Path.ofParts false (e.1.drop real.length)
      (path, v.seen path e.2))
  | _ => .empty

/-- Lays out an item at a path with the directories above it. What cannot be laid out is left
out. -/
def layOut (v : Volume) (path : String) (i : Item) : Volume :=
  let v :=
    match Path.parent? path with
    | none | some "" => v
    | some p => (v.makeDirs p).toOption.getD v
  match i with
  | .directory => (v.makeDirs path).toOption.getD v
  | .file content => (v.writeFile path content).toOption.getD v
  | .link _ =>
    match v.resolve false path with
    | .ok (real, _) => v.put real i
    | .error _ => v

/-- Takes away what is at a path, a directory with all below. -/
def discard (v : Volume) (path : String) : Volume :=
  let after :=
    match v.linkMetadata path with
    | .ok .directory => v.removeTree path
    | _ => v.removeFile path
  after.toOption.getD v

end CodeGraph.Volume

namespace CodeGraph

/-- A change at an absolute path. -/
inductive VolumeChange where
  | removeFile (path : String)
  | removeDirectory (path : String)
  | makeDirectory (path : String)
  | writeFile (path : String) (content : ByteArray)

namespace Volume

def removal (path : String) : Item → VolumeChange
  | .directory => .removeDirectory path
  | _ => .removeFile path

/-- Putting an item in place; a link is left as it is. -/
def placement? (path : String) : Item → Option VolumeChange
  | .directory => some (.makeDirectory path)
  | .file content => some (.writeFile path content)
  | .link _ => none

/-- The entries of a volume, the outermost first. -/
def byDepth (v : Volume) : List (List String × Item) :=
  v.entries.mergeSort fun a b => a.1.length ≤ b.1.length

/-- Whether a volume has the same item at a real path. -/
def hasSame (v : Volume) (e : List String × Item) : Bool :=
  (v.item? e.1).any (·.same e.2)

/-- Whether a volume has a directory where an entry is one, or something else where it is none. -/
def hasKind (v : Volume) (e : List String × Item) : Bool :=
  (v.item? e.1).any (·.isDirectory == e.2.isDirectory)

/-- What turns a volume into another one. -/
def changesTo (v w : Volume) : List VolumeChange :=
  let path (names : List String) := Path.ofParts true names
  ((v.byDepth.filter (!w.hasKind ·)).reverse.map fun e => removal (path e.1) e.2) ++
    (w.byDepth.filter (!v.hasSame ·)).filterMap fun e => placement? (path e.1) e.2

end Volume

end CodeGraph
