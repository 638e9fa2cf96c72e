import CodeGraph.Decimal
import CodeGraph.Json.Outline
import CodeGraph.Text.Quoted

/-!
# Reading typed values

A reader of a type walks an outline in the order of the text and gives the value or the first
thing that is wrong. A `Mismatch` is the cause of a failure in a text that is well formed, and
`Mismatch.message` is its wording.

What differs between the places a value comes from is an `Origin`: a text, which limits how deep
arrays and objects nest and which may break off; a value that is already there; or the tables of a
settings file.

A record is read from an object by its members in any order, and from an array by its fields in
their order. `Record` holds what both need.
-/

namespace CodeGraph.Json

/-- What was found where something else was expected. -/
inductive Found where
  | null
  | bool (b : Bool)
  | integer (i : Integer)
  | floating (x : Float)
  | string (s : String)
  | sequence
  | map
  | constructorName

/-- Why a well-formed value is not of a type. -/
inductive Mismatch where
  | wrongType (found : Found) (expected : String)
  | wrongValue (found : Found) (expected : String)
  | wrongLength (length : Nat) (expected : String)
  | unknownVariant (name : String) (known : List String)
  | missingField (name : String)
  | duplicateField (name : String)
  | other (message : String)

/-- Why a value cannot be read. A mismatch comes with the names on the way to it. -/
inductive Failure where
  | text (b : Break)
  | mismatch (path : List String) (m : Mismatch)

/-- A reader's answer. -/
abbrev Decoded (α : Type) := Except Failure α

namespace Found

/-- How a diagnostic names what was found, given how it writes doubles. -/
def describe (double : Float → String) : Found → String
  | .null => "null"
  | .bool b => "boolean `" ++ (if b then "true" else "false") ++ "`"
  | .integer i => "integer `" ++ toString i.val ++ "`"
  | .floating x => "floating point `" ++ double x ++ "`"
  | .string s => "string " ++ Text.inQuotes s
  | .sequence => "sequence"
  | .map => "map"
  | .constructorName => "unit variant"

end Found

/-- Names in backquotes: two of them with `or`, more of them in a list. -/
def oneOf : List String → String
  | [] => "there are no variants"
  | [a] => "expected `" ++ a ++ "`"
  | [a, b] => "expected `" ++ a ++ "` or `" ++ b ++ "`"
  | l => "expected one of " ++ ", ".intercalate (l.map fun s => "`" ++ s ++ "`")

namespace Mismatch

/-- The wording of a mismatch, given how doubles are written. -/
def message (double : Float → String) : Mismatch → String
  | .wrongType f e => "invalid type: " ++ f.describe double ++ ", expected " ++ e
  | .wrongValue f e => "invalid value: " ++ f.describe double ++ ", expected " ++ e
  | .wrongLength n e => "invalid length " ++ toString n ++ ", expected " ++ e
  | .unknownVariant s known => "unknown variant `" ++ s ++ "`, " ++ oneOf known
  | .missingField s => "missing field `" ++ s ++ "`"
  | .duplicateField s => "duplicate field `" ++ s ++ "`"
  | .other s => s

end Mismatch

namespace Failure

/-- A mismatch at the place itself. -/
def of (m : Mismatch) : Failure := .mismatch [] m

def flaw (f : Flaw) : Failure := .text (.malformed f)

/-- The failure as seen from outside the member of a name. -/
def within (name : String) : Failure → Failure
  | .mismatch path m => .mismatch (name :: path) m
  | f => f

/-- The wording of a failure, given how doubles are written. -/
def message (double : Float → String) : Failure → String
  | .mismatch _ m => m.message double
  | .text b => b.message

end Failure

/-- Where a value comes from. -/
inductive Origin where
  /-- A text, with the number of levels that may still be opened and one more. -/
  | text (room : Nat)
  /-- A value that is already there. -/
  | value
  /-- The tables of a settings file. -/
  | table

namespace Origin

/-- A text from its start; 127 levels may be opened. -/
def start : Origin := .text 128

/-- The origin inside an array or object. -/
def enter : Origin → Decoded Origin
  | .text (room + 2) => .ok (.text (room + 1))
  | .text _ => .error (.flaw .tooDeep)
  | o => .ok o

end Origin

/-- What an outline is, unless it cannot be read at all. -/
def Outline.found : Outline → Decoded Found
  | .null => .ok .null
  | .bool b => .ok (.bool b)
  | .number (.int i) => .ok (.integer i)
  | .number (.double x) => .ok (.floating x)
  | .string s => .ok (.string s)
  | .moment s => .ok (.string s)
  | .array _ => .ok .sequence
  | .object _ => .ok .map
  | .unreadable f => .error (.flaw f)
  | .broken f => .error (.text f.reading)

/-- The failure of a reader that expected something else. -/
def unexpected {α : Type} (v : Outline) (expected : String) : Decoded α := do
  throw (.of (.wrongType (← v.found) expected))

/-! ## Skipping -/

mutual

/-- Walks over a value that is not read. -/
def skip : Outline → Decoded Unit
  | .array items => skipItems items
  | .object ms => skipMembers ms
  | .broken f => .error (.text f.skipping)
  | _ => .ok ()

def skipItems : Elements → Decoded Unit
  | .done => .ok ()
  | .cons v rest => do skip v; skipItems rest
  | .broken _ f => .error (.text f.skipping)

def skipMembers : Members → Decoded Unit
  | .done => .ok ()
  | .cons _ v rest => do skip v; skipMembers rest
  | .misplaced _ => .error (.flaw .noName)
  | .broken _ f => .error (.text f.skipping)

end

/-! ## Plain values -/

/-- Reads a string; `expected` names what is wanted. -/
def readStringAs (expected : String) : Outline → Decoded String
  | .string s => .ok s
  | .moment s => .ok s
  | v => unexpected v expected

def readString (_ : Origin) (v : Outline) : Decoded String :=
  readStringAs "a string" v

def readPath (_ : Origin) (v : Outline) : Decoded String :=
  readStringAs "path string" v

def readBool (_ : Origin) : Outline → Decoded Bool
  | .bool b => .ok b
  | v => unexpected v "a boolean"

/-- Reads a natural number of at most `bound`; `expected` names the type. -/
def readNatural (bound : Nat) (expected : String) : Outline → Decoded Nat
  | .number (.int i) =>
    if 0 ≤ i.val ∧ i.val ≤ bound then .ok i.val.toNat
    else .error (.of (.wrongValue (.integer i) expected))
  | v => unexpected v expected

def readWord (_ : Origin) (v : Outline) : Decoded UInt64 :=
  (readNatural (UInt64.size - 1) "u64" v).map UInt64.ofNat

/-- Reads a 64-bit word that counts things in memory. -/
def readSize (_ : Origin) (v : Outline) : Decoded UInt64 :=
  (readNatural (UInt64.size - 1) "usize" v).map UInt64.ofNat

def readWord32 (_ : Origin) (v : Outline) : Decoded UInt32 :=
  (readNatural (UInt32.size - 1) "u32" v).map UInt32.ofNat

/-- Reads a double; an integer is rounded to one. -/
def readDouble (_ : Origin) : Outline → Decoded Float
  | .number (.double x) => .ok x
  | .number (.int i) => .ok (Float.ofInt i.val)
  | v => unexpected v "f64"

def readOptional {α : Type} (read : Origin → Outline → Decoded α) (o : Origin) :
    Outline → Decoded (Option α)
  | .null => .ok none
  | v => (read o v).map some

/-! ## Lists and maps -/

/-- Reads the items of a list. -/
def readItems {α : Type} (read : Outline → Decoded α) : Elements → Decoded (List α)
  | .done => .ok []
  | .cons v rest => do return (← read v) :: (← readItems read rest)
  | .broken _ f => .error (.text f.reading)

def readList {α : Type} (read : Origin → Outline → Decoded α) (o : Origin) :
    Outline → Decoded (List α)
  | .array items => do
    let o ← o.enter
    readItems (read o) items
  | v => unexpected v "a sequence"

/-- Reads the members of a map, the last of equal names kept. -/
def readEntries {α : Type} (read : Outline → Decoded α) (m : NameMap α) :
    Members → Decoded (NameMap α)
  | .done => .ok m
  | .cons (.error f) _ _ => .error (.flaw f)
  | .cons (.ok k) v rest => do
    let x ← (read v).mapError (.within k)
    readEntries read (m.insert k x) rest
  | .misplaced _ => .error (.flaw .noName)
  | .broken _ f => .error (.text f.reading)

def readMap {α : Type} (read : Origin → Outline → Decoded α) (o : Origin) :
    Outline → Decoded (NameMap α)
  | .object ms => do
    let o ← o.enter
    readEntries (read o) .empty ms
  | v => unexpected v "a map"

/-! ## Any value -/

mutual

/-- Reads a value of any shape into its canonical form. -/
def readJson (o : Origin) : Outline → Decoded Json
  | .null => .ok .null
  | .bool b => .ok (.bool b)
  | .number (.int i) => .ok (.number (.int i))
  | .number (.double x) => .ok (.ofDouble x)
  | .string s => .ok (.string s)
  | .moment s => .ok (.string s)
  | .unreadable f => .error (.flaw f)
  | .broken f => .error (.text f.reading)
  | .array items => do
    let o ← o.enter
    return .array (← readJsonItems o items)
  | .object ms => do
    let o ← o.enter
    return .ofMap (← readJsonMembers o .empty ms)

def readJsonItems (o : Origin) : Elements → Decoded (List Json)
  | .done => .ok []
  | .cons v rest => do return (← readJson o v) :: (← readJsonItems o rest)
  | .broken _ f => .error (.text f.reading)

def readJsonMembers (o : Origin) (m : NameMap Json) : Members → Decoded (NameMap Json)
  | .done => .ok m
  | .cons (.error f) _ _ => .error (.flaw f)
  | .cons (.ok k) v rest => do
    let x ← readJson o v
    readJsonMembers o (m.insert k x) rest
  | .misplaced _ => .error (.flaw .noName)
  | .broken _ f => .error (.text f.reading)

end

/-! ## Constructors -/

/-- Reads nothing: the argument of a constructor that has none. -/
def readUnit : Outline → Decoded Unit
  | .null => .ok ()
  | v => unexpected v "unit"

/-- Finds a constructor by its name. -/
def chooseVariant {α : Type} (known : List (String × α)) (name : String) : Decoded α :=
  match known.lookup name with
  | some a => .ok a
  | none => .error (.of (.unknownVariant name (known.map Prod.fst)))

/-- How a settings file names a kind of value. -/
private def Outline.kindName : Outline → String
  | .null | .unreadable _ | .broken _ => "null"
  | .bool _ => "boolean"
  | .number (.int _) => "integer"
  | .number (.double _) => "float"
  | .string _ => "string"
  | .moment _ => "datetime"
  | .array _ => "array"
  | .object _ => "table"

/-- The argument of a constructor in a settings file is an empty table or array. -/
private def readEmptyTable : Outline → Decoded Unit
  | .array .done => .ok ()
  | .array _ => .error (.of (.other "expected empty array"))
  | .object .done => .ok ()
  | .object _ => .error (.of (.other "expected empty table"))
  | v => .error (.of (.other ("expected table, found " ++ v.kindName)))

/-- What may follow in a text when nothing more of an object is read. -/
def endOfMembers : Members → Decoded Unit
  | .done => .ok ()
  | .broken false f => .error (.text (f.reading.atEnd .noValue))
  | _ => .error (.flaw .noValue)

/-- Reads a constructor without arguments: its name, or an object with its name as the only
member. -/
def readVariant {α : Type} (known : List (String × α)) (o : Origin) (v : Outline) : Decoded α :=
  match o, v with
  | _, .string s => chooseVariant known s
  | .text _, .object ms => do
    let _ ← o.enter
    match ms with
    | .cons (.ok k) v rest => do
      let a ← chooseVariant known k
      readUnit v
      endOfMembers rest
      return a
    | .cons (.error f) _ _ => throw (.flaw f)
    | .misplaced v => unexpected v "variant identifier"
    | .broken _ f => throw (.text f.choosing)
    | .done => throw (.flaw .noValue)
  | .text _, .broken f => .error (.text f.choosing)
  | .text _, .unreadable .numberTooLarge => .error (.flaw .noValue)
  | .text _, .unreadable f => .error (.flaw f)
  | .text _, _ => .error (.flaw .noValue)
  | .value, .object (.cons (.ok k) v .done) => do
    let a ← chooseVariant known k
    readUnit v
    return a
  | .value, .object _ => .error (.of (.wrongValue .map "map with a single key"))
  | .value, v => unexpected v "string or map"
  | .table, .object .done =>
    .error (.of (.other "wanted exactly 1 element, found 0 elements"))
  | .table, .object (.cons (.ok k) v .done) => do
    let a ← chooseVariant known k
    readEmptyTable v
    return a
  | .table, .object _ => .error (.of (.other "wanted exactly 1 element, more than 1 element"))
  | .table, _ => .error (.of (.wrongType .constructorName "string only"))

/-! ## Records -/

/-- A field of a record, and how its value is put into the record. -/
structure Field (α : Type) where
  name : String
  /-- Reads the field into the record. -/
  read : Origin → Outline → α → Decoded α
  /-- Whether the field has to be there; otherwise the record's own value stays. -/
  required : Bool

/-- A field that has to be there. -/
def Field.needed {α β : Type} (name : String) (read : Origin → Outline → Decoded β)
    (set : β → α → α) : Field α :=
  ⟨name, fun o v a => (read o v).map (set · a), true⟩

/-- A field that may be left out. -/
def Field.defaulted {α β : Type} (name : String) (read : Origin → Outline → Decoded β)
    (set : β → α → α) : Field α :=
  ⟨name, fun o v a => (read o v).map (set · a), false⟩

/-- How a record is read: its name, its fields in order, and the record to start from. -/
structure Record (α : Type) where
  name : String
  fields : List (Field α)
  start : α

namespace Record

variable {α : Type}

/-- Reads the members of an object into a record, `seen` being the fields that were read before;
`other` takes the members of unknown names. -/
def readMembers (r : Record α) (o : Origin) (other : String → Outline → α → Decoded α)
    (seen : List String) (a : α) : Members → Decoded (List String × α)
  | .done => .ok (seen, a)
  | .cons (.error f) _ _ => .error (.flaw f)
  | .cons (.ok k) v rest =>
    match r.fields.find? (fun f => f.name == k) with
    | some f =>
      if seen.contains k then .error (.of (.duplicateField k))
      else do
        let a ← (f.read o v a).mapError (.within k)
        readMembers r o other (k :: seen) a rest
    | none => do
      let a ← other k v a
      readMembers r o other seen a rest
  | .misplaced _ => .error (.flaw .noName)
  | .broken _ f => .error (.text f.reading)

/-- The record, if no field that has to be there is missing. -/
def complete (r : Record α) (seen : List String) (a : α) : Decoded α :=
  match r.fields.find? (fun f => f.required && !seen.contains f.name) with
  | some f => .error (.of (.missingField f.name))
  | none => .ok a

/-- What the array form of a record is called. -/
def sequenceName (r : Record α) : String :=
  "struct " ++ r.name ++ " with " ++ toString r.fields.length ++
    (if r.fields.length = 1 then " element" else " elements")

/-- How many items a list of elements has. -/
def count : Elements → Nat
  | .done => 0
  | .broken _ _ => 0
  | .cons _ rest => count rest + 1

/-- Nothing may follow the last field in an array. -/
def endOfItems (o : Origin) (before : Nat) : Elements → Decoded Unit
  | .done => .ok ()
  | .broken false f => .error (.text (f.reading.atEnd .more))
  | .broken true f =>
    .error (.flaw (if f.reading = .malformed .commaAtEnd then .commaAtEnd else .more))
  | .cons v rest =>
    match o with
    | .text _ => .error (.flaw .more)
    | _ => .error (.of (.wrongLength (before + count (.cons v rest)) "fewer elements in array"))

/-- Reads the items of an array into the fields in their order. -/
def readPositions (r : Record α) (o : Origin) (n : Nat) (a : α) :
    List (Field α) → Elements → Decoded α
  | [], items => do
    endOfItems o n items
    return a
  | f :: fields, .cons v rest => do
    let a ← f.read o v a
    readPositions r o (n + 1) a fields rest
  | f :: fields, .done =>
    if f.required then .error (.of (.wrongLength n r.sequenceName))
    else readPositions r o (n + 1) a fields .done
  | _ :: _, .broken _ f => .error (.text f.reading)

/-- Reads a record from an object or an array. -/
def read (r : Record α) (o : Origin) : Outline → Decoded α
  | .object ms => do
    let o ← o.enter
    let (seen, a) ← r.readMembers o (fun _ v a => do skip v; return a) [] r.start ms
    r.complete seen a
  | .array items => do
    let o ← o.enter
    r.readPositions o 0 r.start r.fields items
  | v => unexpected v ("struct " ++ r.name)

/-- Reads a record that keeps the members of unknown names; it has no array form. -/
def readOpen (r : Record α) (keep : String → Json → α → α) (o : Origin) : Outline → Decoded α
  | .object ms => do
    let o ← o.enter
    let other := fun k v a => do return keep k (← readJson o v) a
    let (seen, a) ← r.readMembers o other [] r.start ms
    r.complete seen a
  | v => unexpected v ("struct " ++ r.name)

end Record

/-! ## Types with a written form -/

/-- A type whose values are written as JSON and read again. -/
class Form (α : Type) where
  write : α → Json
  read : Origin → Outline → Decoded α

instance : Form Json := ⟨id, readJson⟩

/-! ## Whole texts -/

/-- Reads a text as a typed value; nothing but blanks may follow it. -/
def decodeGlyphs {α : Type} (read : Origin → Outline → Decoded α) (gs : List Text.Glyph) :
    Decoded α := do
  let (v, more) := outline gs
  let a ← read .start v
  if more then throw (.flaw .more)
  return a

/-- Reads a text as a typed value. -/
def decodeText {α : Type} (read : Origin → Outline → Decoded α) (s : String) : Decoded α :=
  decodeGlyphs read (Text.Glyph.ofString s)

/-- Reads the contents of a file as a typed value. -/
def decodeBytes {α : Type} (read : Origin → Outline → Decoded α) (b : ByteArray) : Decoded α :=
  decodeGlyphs read (Text.Glyph.ofBytes b)

/-- Reads a typed value from a value that is already there. -/
def decodeValue {α : Type} (read : Origin → Outline → Decoded α) (v : Json) : Decoded α :=
  read .value v.toOutline

end CodeGraph.Json
