/-!
# Tables of code points

A standard gives a property of characters as a list of runs of code points in ascending order. A
table keeps such a list with a value for each run and looks a code point up by halving.

Written out, a run is its first and its last code point in hexadecimal, `41-5a`, or with `/` between
them if only every second code point counts, `100/12e`; a run of one is written once. The name of
the value follows, in letters that are no digits, and blanks stand between the runs.
-/

namespace CodeGraph.Text

/-- The number that hexadecimal digits in lower case spell. -/
def hexNumber (cs : List Char) : Nat :=
  cs.foldl (fun n c => n * 16 + (if c.isDigit then c.toNat - 48 else c.toNat - 87)) 0

/-- Code points from a first to a last one, all of them or every second one. -/
structure CodeRun where
  first : Nat
  last : Nat
  sparse : Bool := false
  deriving Repr, Inhabited

/-- Whether a code point is in a run. -/
def CodeRun.contains (r : CodeRun) (code : Nat) : Bool :=
  r.first ≤ code && code ≤ r.last && (!r.sparse || (code - r.first) % 2 == 0)

/-- The runs that are `r` where every code point counts. -/
def CodeRun.solid (r : CodeRun) : List (Nat × Nat) :=
  if r.sparse then (List.range ((r.last - r.first) / 2 + 1)).map fun i =>
    (r.first + 2 * i, r.first + 2 * i)
  else [(r.first, r.last)]

/-- Runs in ascending order, each with a value. -/
structure CodeTable (α : Type) where
  rows : Array (CodeRun × α)
  deriving Inhabited

namespace CodeTable

variable {α : Type}

/-- The last row between two places that starts at or before a code point, if one does. -/
def lastBefore (t : CodeTable α) (code low high : Nat) : Nat :=
  if high ≤ low + 1 then low
  else
    let middle := (low + high) / 2
    if (t.rows[middle]?.map (·.1.first)).getD 0 ≤ code then lastBefore t code middle high
    else lastBefore t code low middle
termination_by high - low

/-- The value of the run that a code point is in. -/
def find? (t : CodeTable α) (code : Nat) : Option α :=
  match t.rows[t.lastBefore code 0 t.rows.size]? with
  | some (run, a) => if run.contains code then some a else none
  | none => none

/-- Whether a code point is in a run. -/
def contains (t : CodeTable α) (code : Nat) : Bool :=
  (t.find? code).isSome

/-- The row that a text writes, if it names a value. -/
def rowOfText? (value? : String → Option α) (s : String) : Option (CodeRun × α) :=
  let isCode (c : Char) : Bool := c.isDigit || ('a' ≤ c && c ≤ 'f')
  let (first, rest) := s.toList.span isCode
  let sparse := rest.head? = some '/'
  let (last, name) :=
    if sparse || rest.head? = some '-' then (rest.drop 1).span isCode else (first, rest)
  (value? (String.ofList name)).map fun a => (⟨hexNumber first, hexNumber last, sparse⟩, a)

/-- The table that a text writes. -/
def ofText (value? : String → Option α) (s : String) : CodeTable α :=
  ⟨((s.splitOn " ").filterMap (rowOfText? value?)).toArray⟩

end CodeTable

abbrev CodeSet := CodeTable Unit

/-- The set that a text writes. -/
def CodeSet.ofText (s : String) : CodeSet :=
  CodeTable.ofText (fun _ => some ()) s

end CodeGraph.Text
