import CodeGraph.Decimal
import CodeGraph.Json.Basic
import CodeGraph.Text.Basic

/-!
# Writing JSON

The text of a value, compact or indented by two spaces. A double is written with its fewest digits:
positionally from `1e-5` up to below `1e16`, and with an exponent beyond.
-/

namespace CodeGraph.Json

/-- The characters that stand for a character inside quotes. -/
def escape (c : Char) : List Char :=
  if c = '"' then ['\\', '"']
  else if c = '\\' then ['\\', '\\']
  else if c = '\x08' then ['\\', 'b']
  else if c = '\t' then ['\\', 't']
  else if c = '\n' then ['\\', 'n']
  else if c = '\x0c' then ['\\', 'f']
  else if c = '\r' then ['\\', 'r']
  else if c.toNat < 0x20 then
    ['\\', 'u', '0', '0', Text.hexDigit (c.toNat / 16), Text.hexDigit c.toNat]
  else [c]

def quote (s : String) : String :=
  "\"" ++ String.ofList (s.toList.flatMap escape) ++ "\""

/-- The text of a finite double. -/
def doubleText (x : Float) : String :=
  match Decimal.ofDouble? x with
  | none => "null"
  | some d =>
    Decimal.signed x <|
      if -5 ≤ d.leading ∧ d.leading < 16 ∨ d.digits = 0 then d.positional else d.scientific

def numberText : Number → String
  | .int i => toString i.val
  | .double x => doubleText x

mutual

/-- The text of a value without spaces. -/
def compact : Json → String
  | .null => "null"
  | .bool b => if b then "true" else "false"
  | .number n => numberText n
  | .string s => quote s
  | .array items => "[" ++ compactItems true items ++ "]"
  | .object members => "\x7b" ++ compactMembers true members ++ "\x7d"

/-- Items with commas between them, and one in front unless they come first. -/
def compactItems (first : Bool) : List Json → String
  | [] => ""
  | v :: rest => (if first then "" else ",") ++ v.compact ++ compactItems false rest

/-- Members with commas between them, and one in front unless they come first. -/
def compactMembers (first : Bool) : List (String × Json) → String
  | [] => ""
  | (k, v) :: rest =>
    (if first then "" else ",") ++ quote k ++ ":" ++ v.compact ++ compactMembers false rest

end

/-- A line break and two spaces for each level. -/
def newline (level : Nat) : String :=
  "\n" ++ String.ofList (List.replicate (2 * level) ' ')

mutual

/-- The text of a value with every item and member on a line of its own. -/
def pretty (level : Nat) : Json → String
  | .array [] => "[]"
  | .array items => "[" ++ prettyItems (level + 1) true items ++ newline level ++ "]"
  | .object [] => "\x7b\x7d"
  | .object members => "\x7b" ++ prettyMembers (level + 1) true members ++ newline level ++ "\x7d"
  | .null => "null"
  | .bool b => if b then "true" else "false"
  | .number n => numberText n
  | .string s => quote s

/-- Items on lines of their own. -/
def prettyItems (level : Nat) (first : Bool) : List Json → String
  | [] => ""
  | v :: rest =>
    (if first then "" else ",") ++ newline level ++ pretty level v ++ prettyItems level false rest

/-- Members on lines of their own. -/
def prettyMembers (level : Nat) (first : Bool) : List (String × Json) → String
  | [] => ""
  | (k, v) :: rest =>
    (if first then "" else ",") ++ newline level ++ quote k ++ ": " ++ pretty level v
      ++ prettyMembers level false rest

end

end CodeGraph.Json
