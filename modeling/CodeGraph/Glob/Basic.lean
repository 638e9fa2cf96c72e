/-!
# Globs

A glob is a pattern of paths: literal characters, single bytes, runs of bytes, sets, choices, and
runs of whole directories. A glob matches a path if its parts can take all bytes of the path one
after the other (`Glob.isMatch`).

Paths are compared byte by byte. In a glob that goes by segments a single byte and a run of bytes
never take a slash, in others they do.
-/

namespace CodeGraph

namespace Glob

/-- A part of a glob. -/
inductive Part where
  | literal (c : Char)
  /-- A byte. -/
  | one
  /-- Any number of bytes. -/
  | many
  /-- Any number of directories at the start. -/
  | leading
  /-- All that is below a directory. -/
  | trailing
  /-- Any number of directories between two names. -/
  | between
  /-- A byte of some ranges of characters, or of none of them. -/
  | oneOf (negated : Bool) (ranges : List (Char × Char))
  | choice (alternatives : List (List Part))
  deriving Repr, Inhabited

def bytesOf (c : Char) : List UInt8 :=
  String.utf8EncodeChar c

/-- The byte that separates the names of a path. -/
def slash : UInt8 := 47

/-- Whether a byte is in a range of characters. Of a character of several bytes each counts by
itself, and only the last byte of the lower end and the first of the upper one span a range. -/
def inRange (b : UInt8) (r : Char × Char) : Bool :=
  let low := bytesOf r.1
  let high := bytesOf r.2
  if r.1 = r.2 then low.contains b
  else
    low.dropLast.contains b || (low.getLastD 0 ≤ b && b ≤ high.headD 0) || high.tail.contains b

/-- What is left after each number of bytes that satisfy a condition, the shortest run first. -/
def restsWhile (p : UInt8 → Bool) : List UInt8 → List (List UInt8)
  | [] => [[]]
  | b :: rest => (b :: rest) :: if p b then restsWhile p rest else []

/-- What is left after each slash. -/
def restsAfterSlash : List UInt8 → List (List UInt8)
  | [] => []
  | b :: rest => if b = slash then rest :: restsAfterSlash rest else restsAfterSlash rest

/-- Drops repeated ends of one text, which are known by their length. -/
def distinct (l : List (List UInt8)) : List (List UInt8) :=
  l.foldl (fun seen r => if seen.any (fun s => s.length == r.length) then seen else r :: seen) []

mutual

/-- Whether a part takes nothing because it has no alternative. -/
def Part.isVoid : Part → Bool
  | .choice alternatives => noneTakes alternatives
  | _ => false

def allVoid : List Part → Bool
  | [] => true
  | p :: rest => p.isVoid && allVoid rest

def noneTakes : List (List Part) → Bool
  | [] => true
  | a :: rest => allVoid a && noneTakes rest

end

mutual

/-- What a part may leave of a path. -/
def Part.rests (bySegment : Bool) (s : List UInt8) : Part → List (List UInt8)
  | .literal c =>
    let bytes := bytesOf c
    if bytes.isPrefixOf s then [s.drop bytes.length] else []
  | .one =>
    match s with
    | b :: rest => if bySegment && b == slash then [] else [rest]
    | [] => []
  | .many => restsWhile (fun b => !(bySegment && b == slash)) s
  | .leading => s :: restsAfterSlash s
  | .trailing =>
    match s with
    | b :: rest => if b = slash then restsWhile (fun _ => true) rest else []
    | [] => []
  | .between =>
    match s with
    | b :: rest => if b = slash then rest :: restsAfterSlash rest else []
    | [] => []
  | .oneOf negated ranges =>
    match s with
    | b :: rest => if ranges.any (inRange b) != negated then [rest] else []
    | [] => []
  | .choice alternatives =>
    if noneTakes alternatives then [s] else restsOfAny bySegment s alternatives

/-- What parts may leave of a path, one after the other. -/
def restsOfAll (bySegment : Bool) (ss : List (List UInt8)) : List Part → List (List UInt8)
  | [] => ss
  | p :: rest =>
    restsOfAll bySegment (distinct (ss.flatMap fun s => p.rests bySegment s)) rest

/-- What alternatives may leave of a path; those that are void do not count. -/
def restsOfAny (bySegment : Bool) (s : List UInt8) : List (List Part) → List (List UInt8)
  | [] => []
  | a :: rest =>
    (if allVoid a then [] else restsOfAll bySegment [s] a) ++ restsOfAny bySegment s rest

end

end Glob

open Glob in
/-- A glob. -/
structure Glob where
  parts : List Part
  /-- Whether single bytes and runs of bytes end at slashes. -/
  bySegment : Bool := false
  deriving Repr, Inhabited

namespace Glob

/-- Whether a glob matches all of a path. Directories at the start and nothing after them match
every path. -/
def isMatch (g : Glob) (path : String) : Bool :=
  match g.parts with
  | [.leading] => true
  | parts => (restsOfAll g.bySegment [path.toUTF8.toList] parts).any (·.isEmpty)

end Glob

end CodeGraph
