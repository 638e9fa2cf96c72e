import CodeGraph.Json.Outline
import CodeGraph.Toml.Moment

/-!
# Settings values

A value of a settings file. The entries of a table are held in increasing order of name unless a
table is made to be written, when they are in the order of writing.

Laying one table over another keeps what the upper one does not speak of: tables are merged entry
by entry and any other value is replaced (`Toml.merge`).
-/

namespace CodeGraph

/-- A value of a settings file. -/
inductive Toml where
  | string (s : String)
  | integer (i : Int64)
  | double (x : Float)
  | bool (b : Bool)
  | moment (m : Moment)
  | array (items : List Toml)
  | table (entries : List (String × Toml))

namespace Toml

instance : Inhabited Toml := ⟨.table []⟩

abbrev Table := List (String × Toml)

/-- Whether a value is a table. -/
def isTable : Toml → Bool
  | .table _ => true
  | _ => false

/-- Whether a value is an array that has a table in it. -/
def holdsTable : Toml → Bool
  | .array items => items.any isTable
  | _ => false

/-- A signed 64-bit word as a JSON number. -/
def signedInteger (i : Int64) : Integer :=
  ⟨i.toInt, Int64.le_toInt i, by have := Int64.toInt_lt i; omega⟩

/-- The only member of the object that stands for a moment. -/
def momentName : String := "$__toml_private_datetime"

mutual

/-- The value as JSON; a moment is an object with its text. -/
def toJson : Toml → Json
  | .string s => .string s
  | .integer i => .number (.int (signedInteger i))
  | .double x => .ofDouble x
  | .bool b => .bool b
  | .moment m => .object [(momentName, .string m.text)]
  | .array items => .array (toJsonItems items)
  | .table entries => .object (toJsonEntries entries)

def toJsonItems : List Toml → List Json
  | [] => []
  | v :: rest => v.toJson :: toJsonItems rest

def toJsonEntries : List (String × Toml) → List (String × Json)
  | [] => []
  | (k, v) :: rest => (k, v.toJson) :: toJsonEntries rest

end

mutual

/-- The value as readers of typed values walk it. -/
def outline : Toml → Json.Outline
  | .string s => .string s
  | .integer i => .number (.int (signedInteger i))
  | .double x => .number (.double x)
  | .bool b => .bool b
  | .moment m => .moment m.text
  | .array items => .array (outlineItems items)
  | .table entries => .object (outlineEntries entries)

def outlineItems : List Toml → Json.Elements
  | [] => .done
  | v :: rest => .cons v.outline (outlineItems rest)

def outlineEntries : List (String × Toml) → Json.Members
  | [] => .done
  | (k, v) :: rest => .cons (.ok k) v.outline (outlineEntries rest)

end

mutual

/-- Lays the entries of a table over those of another. -/
def merge (base : Table) : Table → Table
  | [] => base
  | (k, v) :: rest => merge (NameMap.place k (mergeValue (base.lookup k) v) base) rest

/-- Lays a value over what was there before. -/
def mergeValue (old : Option Toml) : Toml → Toml
  | .table upper =>
    match old with
    | some (.table base) => .table (merge base upper)
    | _ => .table upper
  | .string s => .string s
  | .integer i => .integer i
  | .double x => .double x
  | .bool b => .bool b
  | .moment m => .moment m
  | .array items => .array items

end

/-- Plain values first, then arrays with tables in them, and tables last. -/
def inWritingOrder (entries : Table) : Table :=
  (entries.filter fun e => !e.2.isTable && !e.2.holdsTable) ++
    (entries.filter fun e => e.2.holdsTable) ++
    entries.filter fun e => e.2.isTable

mutual

/-- The value with the entries of every table in the order of writing. -/
def arranged : Toml → Toml
  | .array items => .array (arrangedItems items)
  | .table entries => .table (inWritingOrder (arrangedEntries entries))
  | v => v

def arrangedItems : List Toml → List Toml
  | [] => []
  | v :: rest => v.arranged :: arrangedItems rest

def arrangedEntries : List (String × Toml) → List (String × Toml)
  | [] => []
  | (k, v) :: rest => (k, v.arranged) :: arrangedEntries rest

end

end Toml

end CodeGraph
