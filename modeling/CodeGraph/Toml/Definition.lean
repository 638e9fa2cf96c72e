import CodeGraph.Toml.Basic

/-!
# Defining tables

A settings file defines its tables piece by piece. A table comes about under a header of its own,
on the way to a header or on the way to a dotted name, and how it came about decides what may still
be added: a table has one header at most, a dotted name cannot reach into a table that has a header
or stands in braces, and an entry is defined once (`Definitions.define`).

`Definitions.toTable` is what has been defined when the file ends. Only then does it come out which
tables stand for moments.
-/

namespace CodeGraph.Toml

/-- How a table came about. -/
inductive Standing where
  /-- Under a header of its own. -/
  | headed
  /-- On the way to a header. -/
  | passed
  /-- On the way to a dotted name. -/
  | dotted
  deriving DecidableEq, Repr

/-- What a name stands for while a file is being read. -/
inductive Definition where
  /-- A value that is neither an array nor a table. -/
  | value (v : Toml)
  /-- An array in brackets. -/
  | array (items : List Definition)
  /-- A table in braces, to which nothing can be added. -/
  | braced (entries : List (String × Definition))
  | table (standing : Standing) (entries : List (String × Definition))
  /-- The tables of the headers in double brackets. -/
  | tables (elements : List (List (String × Definition)))

namespace Definition

/-- Entries in the order in which they were defined. -/
abbrev Entries := List (String × Definition)

/-- Replaces the entry of a name. -/
def replace (k : String) (d : Definition) (es : Entries) : Entries :=
  es.map fun e => if e.1 == k then (k, d) else e

/-- Changes the table that a path leads to, making the tables on the way. A path that belongs to a
dotted name does not enter tables with a header. -/
def descend (dotted : Bool) (change : Standing → Entries → Option Entries) :
    List String → Standing → Entries → Option Entries
  | [], standing, es => change standing es
  | k :: path, _, es =>
    match es.lookup k with
    | none => do
      let standing := if dotted then Standing.dotted else .passed
      let sub ← descend dotted change path standing []
      return es ++ [(k, .table standing sub)]
    | some (.value _) | some (.array _) | some (.braced _) => none
    | some (.table standing sub) => do
      if dotted ∧ standing = .headed then none
      let sub ← descend dotted change path standing sub
      return replace k (.table standing sub) es
    | some (.tables elements) => do
      let last ← elements.getLast?
      let last ← descend dotted change path .headed last
      return replace k (.tables (elements.dropLast ++ [last])) es

/-- Adds an entry to a table. A dotted name adds to tables that dotted names made, and a plain name
to the others. -/
def addEntry (isPlain : Bool) (k : String) (d : Definition) (standing : Standing) (es : Entries) :
    Option Entries :=
  if (standing = .dotted) = isPlain then none
  else if (es.lookup k).isSome then none
  else some (es ++ [(k, d)])

/-- Defines what a dotted name stands for, given the names before the last one. -/
def define (path : List String) (k : String) (d : Definition) (es : Entries) : Option Entries :=
  descend true (addEntry path.isEmpty k d) path .headed es

mutual

/-- The value of a definition. A table whose first entry has the name that stands for moments is a
moment. -/
def toToml? : Definition → Option Toml
  | .value v => some v
  | .array items => do return .array (← itemValues items)
  | .braced es => asValue es
  | .table _ es => asValue es
  | .tables elements => do return .array (← elementValues elements)

/-- The values of the items of an array. -/
def itemValues : List Definition → Option (List Toml)
  | [] => some []
  | d :: rest => do return (← toToml? d) :: (← itemValues rest)

/-- The value of a table inside a table. What follows the entry that stands for a moment does not
count. -/
def asValue (es : List (String × Definition)) : Option Toml := do
  if (es.head?.map Prod.fst) = some momentName then
    match es with
    | (_, .value (.string s)) :: _ => return .moment (← (Moment.ofText s).toOption)
    | _ => none
  else return .table (NameMap.ofList (← entryValues es)).entries

def entryValues : List (String × Definition) → Option (List (String × Toml))
  | [] => some []
  | (k, d) :: rest => do return (k, ← toToml? d) :: (← entryValues rest)

def elementValues : List (List (String × Definition)) → Option (List Toml)
  | [] => some []
  | es :: rest => do return (← asValue es) :: (← elementValues rest)

end

end Definition

open Definition

/-- A file that is being read: what the sections before the current one have defined, and the
current section. -/
structure Definitions where
  finished : Entries := []
  /-- The names of the current header; none before the first header. -/
  path : List String := []
  /-- Whether the current header is in double brackets. -/
  repeated : Bool := false
  current : Entries := []

namespace Definitions

/-- The path and the last name of a header. -/
def splitHeader? (names : List String) : Option (List String × String) :=
  names.getLast?.map fun k => (names.dropLast, k)

/-- Puts the current section in its place. -/
def finish (d : Definitions) : Option Entries :=
  match splitHeader? d.path with
  | none => some d.current
  | some (path, k) =>
    let place (_ : Standing) (es : Entries) : Option Entries :=
      if d.repeated then
        match es.lookup k with
        | none => some (es ++ [(k, .tables [d.current])])
        | some (.tables elements) => some (replace k (.tables (elements ++ [d.current])) es)
        | _ => none
      else if (es.lookup k).isSome then none
      else some (es ++ [(k, .table .headed d.current)])
    descend false place path .passed d.finished

/-- Starts a section under a header in single brackets. A table that was made on the way to another
header is taken up. -/
def startTable (d : Definitions) (names : List String) : Option Definitions := do
  let finished ← d.finish
  let (path, k) ← splitHeader? names
  let found (_ : Standing) (es : Entries) : Option Entries :=
    match es.lookup k with
    | none => some es
    | some (.table .passed _) => some es
    | _ => none
  let seen ← descend false found path .passed finished
  let taken := lookupPath path k seen
  let without (_ : Standing) (es : Entries) : Option Entries :=
    some (es.filter fun e => e.1 != k)
  return {
    finished := ← descend false without path .passed seen
    path := names
    current := taken }
where
  /-- The entries of the table of a name at a path. -/
  lookupPath (path : List String) (k : String) (es : Entries) : Entries :=
    match path with
    | [] =>
      match es.lookup k with
      | some (.table _ sub) => sub
      | _ => []
    | p :: path =>
      match es.lookup p with
      | some (.table _ sub) => lookupPath path k sub
      | some (.tables elements) => lookupPath path k (elements.getLast?.getD [])
      | _ => []

/-- Starts a section under a header in double brackets. -/
def startElement (d : Definitions) (names : List String) : Option Definitions := do
  let finished ← d.finish
  let (path, k) ← splitHeader? names
  let found (_ : Standing) (es : Entries) : Option Entries :=
    match es.lookup k with
    | none => some es
    | some (.tables _) => some es
    | _ => none
  return {
    finished := ← descend false found path .passed finished
    path := names
    repeated := true
    current := [] }

/-- Defines a value in the current section. -/
def define (d : Definitions) (names : List String) (v : Definition) : Option Definitions := do
  let (path, k) ← splitHeader? names
  return { d with current := ← Definition.define path k v d.current }

def toTable (d : Definitions) : Option Table := do
  return (NameMap.ofList (← entryValues (← d.finish))).entries

end Definitions

/-- The table in braces with these entries; a dotted name makes tables on its way. -/
def inlineTable (entries : List (List String × Definition)) : Option Definition := do
  let es ← entries.foldlM (fun es (names, d) => do
    let (path, k) ← Definitions.splitHeader? names
    Definition.define path k d es) []
  return .braced es

end CodeGraph.Toml
