import CodeGraph.Decimal
import CodeGraph.Json.Printer
import CodeGraph.Toml.Basic

/-!
# Writing settings

The text of a table. Tables inside tables become sections with a header, and so do arrays of
nothing but tables; every other value stands after its name. An array of two or more items has a
line for each of them, whatever it is inside of.

A string is written in the plainest form that holds it: between quotes without escapes, between
single quotes, in three quotes, in three single quotes, and with escapes if nothing else does. The
runs of quotes of either kind in a string are counted for that, and the count ends at 255: a value
with a longer run in one of its strings is not writable (`Toml.isWritable`).
-/

namespace CodeGraph.Toml

/-! ## Strings -/

/-- The longest run of a character. -/
def longestRun (c : Char) (best run : Nat) : List Char → Nat
  | [] => max best run
  | c' :: cs => if c' = c then longestRun c best (run + 1) cs else longestRun c (max best run) 0 cs

/-- Whether a character can only be written as an escape, line breaks apart. -/
def needsCode (c : Char) : Bool :=
  (c.toNat < 0x20 && c != '\t' && c != '\n') || c.toNat == 0x7f

/-- The escape of a character by its code point. -/
def codeEscape (c : Char) : List Char :=
  ['\\', 'u', '0', '0', (Text.hexDigit (c.toNat / 16)).toUpper, (Text.hexDigit c.toNat).toUpper]

/-- The characters between quotes, with escapes. Between three quotes line breaks stand for
themselves, and so do `quotes` quotes in a row. -/
def escaped (threefold : Bool) (quotes run : Nat) : List Char → List Char
  | [] => []
  | c :: cs =>
    if c = '"' then
      if quotes < run + 1 then '\\' :: '"' :: escaped threefold quotes 0 cs
      else '"' :: escaped threefold quotes (run + 1) cs
    else
      (if c = '\\' then ['\\', '\\']
        else if c = '\x08' then ['\\', 'b']
        else if c = '\t' then ['\\', 't']
        else if c = '\n' then (if threefold then ['\n'] else ['\\', 'n'])
        else if c = '\x0c' then ['\\', 'f']
        else if c = '\r' then ['\\', 'r']
        else if needsCode c then codeEscape c
        else [c]) ++ escaped threefold quotes 0 cs

/-- What decides how a string is written. -/
structure StringShape where
  /-- There are characters that can only be written as escapes. -/
  codes : Bool
  backslash : Bool
  lineBreak : Bool
  /-- The longest run of quotes. -/
  quotes : Nat
  /-- The longest run of single quotes. -/
  singles : Nat

def StringShape.of (cs : List Char) : StringShape :=
  ⟨cs.any needsCode, cs.contains '\\', cs.contains '\n', longestRun '"' 0 0 cs,
    longestRun '\'' 0 0 cs⟩

/-- A string on one line, in the plainest form. -/
def plainForm? (shape : StringShape) (s : String) : Option String :=
  if shape.codes ∨ shape.lineBreak then none
  else if !shape.backslash ∧ shape.quotes = 0 then
    some ("\"" ++ String.ofList (escaped false 0 0 s.toList) ++ "\"")
  else if shape.singles = 0 then some ("'" ++ s ++ "'")
  else none

/-- A string between quotes, with escapes. -/
def quotedText (s : String) : String :=
  "\"" ++ String.ofList (escaped false 0 0 s.toList) ++ "\""

/-- A string between three quotes, with escapes; a first line break keeps the text apart. -/
def threefoldText (shape : StringShape) (s : String) : String :=
  "\"\"\"" ++ (if shape.lineBreak then "\n" else "") ++
    String.ofList (escaped true 2 0 s.toList) ++ "\"\"\""

def stringText (s : String) : String :=
  let shape := StringShape.of s.toList
  match plainForm? shape s with
  | some t => t
  | none =>
    if !shape.codes ∧ !shape.backslash ∧ shape.quotes ≤ 2 then threefoldText shape s
    else if !shape.codes ∧ shape.singles ≤ 2 then
      "'''" ++ (if shape.lineBreak then "\n" else "") ++ s ++ "'''"
    else if shape.lineBreak then threefoldText shape s
    else quotedText s

/-- Whether a character may stand in a name without quotes. -/
def isNameChar (c : Char) : Bool :=
  c.isAlphanum || c == '-' || c == '_'

def nameText (s : String) : String :=
  if s ≠ "" ∧ s.toList.all isNameChar then s
  else (plainForm? (StringShape.of s.toList) s).getD (quotedText s)

/-! ## Values -/

/-- The text of a double, always positional. -/
def doubleText (x : Float) : String :=
  if x.isNaN then "nan"
  else Decimal.signed x ((Decimal.ofDouble? x).map Decimal.positional |>.getD "inf")

/-- The text of an array whose items are written. -/
def arrayText : List String → String
  | [] => "[]"
  | [v] => "[" ++ v ++ "]"
  | vs => "[" ++ String.join (vs.map fun v => "\n    " ++ v ++ ",") ++ "\n]"

/-- The text of a table inside an array, whose entries are written. -/
def inlineText : List String → String
  | [] => "\x7b\x7d"
  | es => "\x7b " ++ ", ".intercalate es ++ " \x7d"

mutual

/-- The text of a value after its name. -/
def valueText : Toml → String
  | .string s => stringText s
  | .integer i => toString i.toInt
  | .double x => doubleText x
  | .bool b => if b then "true" else "false"
  | .moment m => m.text
  | .array items => arrayText (itemTexts items)
  | .table entries => inlineText (entryTexts entries)

def itemTexts : List Toml → List String
  | [] => []
  | v :: rest => v.valueText :: itemTexts rest

/-- `valueText`, entry by entry, with the names. -/
def entryTexts : List (String × Toml) → List String
  | [] => []
  | (k, v) :: rest => (nameText k ++ " = " ++ v.valueText) :: entryTexts rest

end

/-- The longest run of quotes that is counted. -/
def longestCounted : Nat := 255

mutual

/-- Whether the runs of quotes in all strings of a value can be counted. Names do not matter. -/
def isWritable : Toml → Bool
  | .string s =>
    let shape := StringShape.of s.toList
    shape.quotes ≤ longestCounted && shape.singles ≤ longestCounted
  | .array items => itemsWritable items
  | .table entries => entriesWritable entries
  | _ => true

def itemsWritable : List Toml → Bool
  | [] => true
  | v :: rest => v.isWritable && itemsWritable rest

def entriesWritable : List (String × Toml) → Bool
  | [] => true
  | (_, v) :: rest => v.isWritable && entriesWritable rest

end

/-! ## Sections -/

/-- Whether a value has sections of its own. -/
def isSection : Toml → Bool
  | .table _ => true
  | .array items => !items.isEmpty && items.all isTable
  | _ => false

/-- The lines of the entries that have no section of their own. -/
def entryLines (entries : Table) : String :=
  String.join (entryTexts (entries.filter fun e => !e.2.isSection) |>.map (· ++ "\n"))

/-- The name of a section: the names on the way to it. -/
def pathText (path : List String) : String :=
  ".".intercalate (path.map nameText)

/-- The section of a table at a path. A table that has nothing but sections of its own has no
header. -/
def tableSection (path : List String) (entries : Table) : List String :=
  if !entries.isEmpty && entries.all (fun e => e.2.isSection) then []
  else ["[" ++ pathText path ++ "]\n" ++ entryLines entries]

mutual

/-- The sections of a value at a path. -/
def sections (path : List String) : Toml → List String
  | .table entries => tableSection path entries ++ entrySections path entries
  | .array items => if (Toml.array items).isSection then itemSections path items else []
  | _ => []

/-- The sections of the entries of a table. -/
def entrySections (path : List String) : List (String × Toml) → List String
  | [] => []
  | (k, v) :: rest => sections (path ++ [k]) v ++ entrySections path rest

/-- The sections of the items of an array. -/
def itemSections (path : List String) : List Toml → List String
  | [] => []
  | .table entries :: rest =>
    ("[[" ++ pathText path ++ "]]\n" ++ entryLines entries) ::
      (entrySections path entries ++ itemSections path rest)
  | _ :: rest => itemSections path rest

end

/-- The text of a table: its own entries, then its sections with blank lines between them. -/
def print (entries : Table) : String :=
  let body := entryLines entries
  "\n".intercalate ((if body = "" then [] else [body]) ++ entrySections [] entries)

end CodeGraph.Toml
