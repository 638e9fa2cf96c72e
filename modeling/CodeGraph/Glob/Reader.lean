import CodeGraph.Glob.Basic

/-!
# Reading globs

The spelling of a glob: a question mark for a byte, a star for a run of bytes, two stars between
slashes for any number of directories, a set in brackets, alternatives in braces with commas, and a
backslash in front of a character that stands for itself.

Two stars that are not alone between slashes are two runs of bytes.
-/

namespace CodeGraph.Glob

/-- How globs are read. -/
structure Dialect where
  /-- Whether single bytes and runs of bytes end at slashes. -/
  bySegment : Bool := false
  /-- Whether an opening bracket that is never closed stands for itself, as all after it do. -/
  openSets : Bool := false
  deriving Repr

/-! ## Sets -/

/-- The inside of a set in the middle of reading. -/
structure SetReader where
  /-- The ranges so far, the last one first. -/
  ranges : List (Char × Char) := []
  isFirst : Bool := true
  /-- Whether a dash may be continuing the last range. -/
  inRange : Bool := false

/-- Raises the upper end of the last range; it must not be below the lower end. -/
def SetReader.extend (r : SetReader) (c : Char) : Option SetReader :=
  match r.ranges with
  | (low, _) :: rest =>
    if c < low then none
    else some { ranges := (low, c) :: rest, isFirst := false, inRange := false }
  | [] => none

/-- Takes a character of the inside. -/
def SetReader.push (r : SetReader) (c : Char) : Option SetReader :=
  if c = '-' ∧ !r.isFirst ∧ !r.inRange then some { r with inRange := true }
  else if r.inRange then r.extend c
  else some { ranges := (c, c) :: r.ranges, isFirst := false, inRange := false }

/-- The ranges of a set that is complete; a dash at the end stands for itself. -/
def SetReader.complete (r : SetReader) : List (Char × Char) :=
  ((if r.inRange then [('-', '-')] else []) ++ r.ranges).reverse

/-- How a set in brackets ends. -/
inductive SetEnd where
  | closed (ranges : List (Char × Char)) (length : Nat)
  | neverClosed
  | badRange

/-- Reads the inside of a set up to the closing bracket. A bracket that comes first is in the
set. -/
def readRanges (r : SetReader) (length : Nat) : List Char → SetEnd
  | [] => .neverClosed
  | c :: rest =>
    if c = ']' ∧ !r.isFirst then .closed r.complete (length + 1)
    else
      match r.push c with
      | some r => readRanges r (length + 1) rest
      | none => .badRange

/-- Reads a set after the opening bracket. -/
def readSet (cs : List Char) : Bool × SetEnd :=
  match cs with
  | '!' :: rest => (true, readRanges {} 1 rest)
  | '^' :: rest => (true, readRanges {} 1 rest)
  | cs => (false, readRanges {} 0 cs)

/-! ## Parts -/

/-- Alternatives in the middle of reading, each with its parts in reverse order. -/
structure Branches where
  complete : List (List Part) := []
  current : List Part := []

/-- A glob in the middle of reading: the innermost alternatives, and those around them. -/
structure GlobReader where
  inner : Branches := {}
  outer : List Branches := []
  /-- Whether brackets open sets. -/
  sets : Bool := true

namespace GlobReader

def push (r : GlobReader) (p : Part) : GlobReader :=
  { r with inner := { r.inner with current := p :: r.inner.current } }

def inChoice (r : GlobReader) : Bool :=
  !r.outer.isEmpty

def openChoice (r : GlobReader) : GlobReader :=
  { r with inner := {}, outer := r.inner :: r.outer }

/-- Goes on to the next alternative. -/
def nextAlternative (r : GlobReader) : GlobReader :=
  { r with inner := { complete := r.inner.current.reverse :: r.inner.complete } }

def closeChoice (r : GlobReader) : Option GlobReader :=
  match r.outer with
  | [] => none
  | b :: outer =>
    let p := Part.choice (r.inner.current.reverse :: r.inner.complete).reverse
    some { r with inner := { b with current := p :: b.current }, outer }

def pushRuns (r : GlobReader) : GlobReader :=
  (r.push .many).push .many

/-- Makes the last part into any number of directories. -/
def replaceLast (r : GlobReader) (p : Part) : GlobReader :=
  match r.inner.current with
  | .leading :: _ => r
  | .trailing :: _ => r
  | _ :: rest => { r with inner := { r.inner with current := p :: rest } }
  | [] => r

/-- Takes two stars between two characters. The answer tells also how many characters more have
been used. -/
def pushStars (r : GlobReader) (before after : Option Char) : GlobReader × Nat :=
  if r.inner.current.isEmpty then
    if after.all (· == '/') then (r.push .leading, 1) else (r.pushRuns, 0)
  else if before != some '/' && !(r.inChoice && (before == some ',' || before == some '{')) then
    (r.pushRuns, 0)
  else
    match after with
    | none => (r.replaceLast .trailing, 0)
    | some '/' => (r.replaceLast .between, 1)
    | some c =>
      if r.inChoice && (c == ',' || c == '\x7d') then (r.replaceLast .trailing, 0)
      else (r.pushRuns, 0)

/-- Takes a character, given the one before it and the rest. The answer tells also how many
characters of the rest have been used. -/
def step (d : Dialect) (r : GlobReader) (before : Option Char) (c : Char) (rest : List Char) :
    Option (GlobReader × Nat) :=
  match c with
  | '?' => some (r.push .one, 0)
  | '*' =>
    match rest with
    | '*' :: rest =>
      let (r, used) := r.pushStars before rest.head?
      some (r, used + 1)
    | _ => some (r.push .many, 0)
  | '[' =>
    if r.sets then
      match readSet rest with
      | (negated, .closed ranges length) => some (r.push (.oneOf negated ranges), length)
      | (_, .neverClosed) =>
        if d.openSets then some ({ r with sets := false }.push (.literal '['), 0) else none
      | (_, .badRange) => none
    else some (r.push (.literal '['), 0)
  | '\x7b' => some (r.openChoice, 0)
  | '\x7d' => r.closeChoice.map fun r => (r, 0)
  | ',' => some (if r.inChoice then r.nextAlternative else r.push (.literal ','), 0)
  | '\\' =>
    match rest with
    | c :: _ => some (r.push (.literal c), 1)
    | [] => none
  | c => some (r.push (.literal c), 0)

/-- Takes all characters; `used` of them have been used already. -/
def run (d : Dialect) (r : GlobReader) (used : Nat) (before : Option Char) :
    List Char → Option GlobReader
  | [] => some r
  | c :: rest =>
    match used with
    | used + 1 => run d r used (some c) rest
    | 0 =>
      match step d r before c rest with
      | some (r, used) => run d r used (some c) rest
      | none => none

end GlobReader

def ofText? (d : Dialect) (s : String) : Option Glob := do
  let r ← GlobReader.run d {} 0 none s.toList
  if r.inChoice then none
  else some ⟨r.inner.current.reverse, d.bySegment⟩

end CodeGraph.Glob
