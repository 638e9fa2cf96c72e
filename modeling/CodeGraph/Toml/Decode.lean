import CodeGraph.Json.Decode
import CodeGraph.Toml.Basic

/-!
# Reading settings values from documents

A settings value may be given in any document: objects are tables, and there is no null. The object
whose first member has the name that stands for moments is a moment.
-/

namespace CodeGraph.Toml

open Json

/-- What a settings value is called where something else is found. -/
def expectation : String := "any valid TOML value"

def readMoment (v : Outline) : Decoded Toml := do
  let s ← readStringAs "string containing a datetime" v
  match Moment.ofText s with
  | .ok m => return .moment m
  | .error e => throw (.of (.other e.message))

/-- The number of members of an object. -/
def countMembers : Members → Nat
  | .cons _ _ rest => countMembers rest + 1
  | _ => 0

/-- Nothing may follow the member that stands for a moment. -/
def endOfMoment (o : Origin) (rest : Members) : Decoded Unit :=
  match o, rest with
  | .text _, rest => endOfMembers rest
  | _, .done => .ok ()
  | _, rest => .error (.of (.wrongLength (countMembers rest + 1) "fewer elements in map"))

mutual

def read (o : Origin) : Outline → Decoded Toml
  | .bool b => .ok (.bool b)
  | .number (.int i) =>
    if i.val < 9223372036854775808 then .ok (.integer (Int64.ofInt i.val))
    else .error (.of (.other "u64 value was too large"))
  | .number (.double x) => .ok (.double x)
  | .string s => .ok (.string s)
  | .moment s => .ok (.string s)
  | .array items => do
    let o ← o.enter
    return .array (← readItems o items)
  | .object ms => do
    let o ← o.enter
    match ms with
    | .cons (.ok k) v rest => do
      if k = momentName then
        let m ← (readMoment v).mapError (.within k)
        endOfMoment o rest
        return m
      let v ← (read o v).mapError (.within k)
      return .table (← readEntries o (.ofList [(k, v)]) rest).entries
    | .done => return .table []
    | ms => return .table (← readEntries o .empty ms).entries
  | .null => unexpected .null expectation
  | .unreadable f => unexpected (.unreadable f) expectation
  | .broken f => unexpected (.broken f) expectation

def readItems (o : Origin) : Elements → Decoded (List Toml)
  | .done => .ok []
  | .cons v rest => do return (← read o v) :: (← readItems o rest)
  | .broken _ f => .error (.text f.reading)

/-- `read`, member by member; no name comes twice. -/
def readEntries (o : Origin) (m : NameMap Toml) : Members → Decoded (NameMap Toml)
  | .done => .ok m
  | .cons (.error f) _ _ => .error (.flaw f)
  | .cons (.ok k) v rest => do
    if m.contains k then throw (.of (.other ("duplicate key: `" ++ k ++ "`")))
    let v ← (read o v).mapError (.within k)
    readEntries o (m.insert k v) rest
  | .misplaced _ => .error (.flaw .noName)
  | .broken _ f => .error (.text f.reading)

end

/-- Reads a table; the last of equal names stays. -/
def readTable (o : Origin) (v : Outline) : Decoded Table :=
  (readMap read o v).map (·.entries)

/-- Reads a typed value from a table. -/
def decode {α : Type} (read : Origin → Outline → Decoded α) (t : Table) : Decoded α :=
  read .table (Toml.table t).outline

end CodeGraph.Toml
