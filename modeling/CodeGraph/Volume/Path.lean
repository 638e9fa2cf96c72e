/-!
# Paths

A path is a text: names with slashes between them, absolute if it starts with a slash. Joining keeps
the spelling of both paths; the parts of a path are its names without the slashes.
-/

namespace CodeGraph.Path

/-- Whether a path starts at the root. -/
def isAbsolute (p : String) : Bool :=
  p.toList.head? == some '/'

/-- A path from inside another one; an absolute path stays as it is. -/
def join (base p : String) : String :=
  if isAbsolute p ∨ base = "" then p
  else if base.toList.getLast? = some '/' then base ++ p
  else base ++ "/" ++ p

def split (p : String) : List String :=
  (p.toList.splitOn '/').map String.ofList

/-- The names of a path; empty names and single dots inside the path do not count. -/
def parts (p : String) : List String :=
  match (split p).filter (· != "") with
  | [] => []
  | a :: rest => (if a = "." ∧ isAbsolute p then [] else [a]) ++ rest.filter (· != ".")

def ofParts (absolute : Bool) (names : List String) : String :=
  (if absolute then "/" else "") ++ "/".intercalate names

/-- The path without its last name, if it has one. -/
def parent? (p : String) : Option String :=
  match (parts p).reverse with
  | [] => none
  | _ :: rest => some (ofParts (isAbsolute p) rest.reverse)

/-- The last name of a path, unless it leads upwards. -/
def fileName? (p : String) : Option String :=
  match (parts p).getLast? with
  | some ".." => none
  | some "." => none
  | n => n

/-- A name up to its last point, and what follows the point. A point at the start does not count. -/
def splitName (name : String) : String × Option String :=
  let cs := name.toList.reverse
  let after := cs.takeWhile (· != '.')
  match cs.drop after.length with
  | [] => (name, none)
  | _ :: before =>
    if before.isEmpty then (name, none)
    else (String.ofList before.reverse, some (String.ofList after.reverse))

/-- What follows the last point of the last name. -/
def fileExtension? (p : String) : Option String :=
  (fileName? p).bind fun n => (splitName n).2

/-- The path with another extension of its last name, if it has one. What follows the name is left
out. -/
def withExtension (p extension : String) : String :=
  match fileName? p, (split p).reverse.dropWhile (fun n => n == "" || n == ".") with
  | some n, _ :: above =>
    "/".intercalate (above.reverse ++
      [if extension = "" then (splitName n).1 else (splitName n).1 ++ "." ++ extension])
  | _, _ => p

end CodeGraph.Path
