import CodeGraph.Glob.Basic
import CodeGraph.Text.Basic

/-!
# Globs as expressions

A glob can be spelled as a regular expression over bytes (`Glob.expression`). The elements of such
an expression lie in rows inside one another, and an expression whose elements lie deeper than 250
levels is not compiled (`Glob.fits`).

The depth is that of the expression as it is spelled: a row of two or more elements is a level, and
so is a group, a set, a repetition, and a choice of two or more.
-/

namespace CodeGraph.Glob

/-! ## Spelling -/

/-- The characters that do not stand for themselves in an expression. -/
def marks : List Char := "\\.+*?()|[]^$#&-~\x7b\x7d".toList

def byteText (b : UInt8) : String :=
  if b < 128 then
    let c := Char.ofNat b.toNat
    String.ofList (if marks.contains c then ['\\', c] else [c])
  else String.ofList ['\\', 'x', Text.hexDigit (b.toNat / 16), Text.hexDigit b.toNat]

/-- A character in an expression, byte by byte. -/
def literalText (c : Char) : String :=
  String.join ((bytesOf c).map byteText)

/-- A range of characters in an expression. -/
def rangeText (r : Char × Char) : String :=
  if r.1 = r.2 then literalText r.1 else literalText r.1 ++ "-" ++ literalText r.2

mutual

def Part.expression (bySegment : Bool) : Part → String
  | .literal c => literalText c
  | .one => if bySegment then "[^/]" else "."
  | .many => if bySegment then "[^/]*" else ".*"
  | .leading => "(?:/?|.*/)"
  | .trailing => "/.*"
  | .between => "(?:/|/.*/)"
  | .oneOf negated ranges =>
    "[" ++ (if negated then "^" else "") ++ String.join (ranges.map rangeText) ++ "]"
  | .choice alternatives =>
    match expressionsOf bySegment alternatives with
    | [] => ""
    | es => "(?:" ++ "|".intercalate es ++ ")"

/-- The expression of parts in a row. -/
def expressionOf (bySegment : Bool) : List Part → String
  | [] => ""
  | p :: rest => p.expression bySegment ++ expressionOf bySegment rest

/-- The expressions of alternatives, without those that are void. -/
def expressionsOf (bySegment : Bool) : List (List Part) → List String
  | [] => []
  | a :: rest =>
    if allVoid a then expressionsOf bySegment rest
    else expressionOf bySegment a :: expressionsOf bySegment rest

end

def expression (g : Glob) : String :=
  let inner := match g.parts with
    | [.leading] => ".*"
    | parts => expressionOf g.bySegment parts
  "(?-u)^" ++ inner ++ "$"

/-! ## Depth -/

/-- How far a row of elements extends. -/
structure Extent where
  /-- The number of elements. -/
  width : Nat := 0
  /-- The depth of the deepest element. -/
  depth : Nat := 0
  deriving DecidableEq, Repr

namespace Extent

/-- Two rows, one after the other. -/
def append (a b : Extent) : Extent :=
  ⟨a.width + b.width, max a.depth b.depth⟩

/-- The depth of a row, which is a level of its own if there is more than one element. -/
def rowDepth (e : Extent) : Nat :=
  if 2 ≤ e.width then e.depth + 1 else e.depth

end Extent

/-- The number of elements of a range in a set: one for the range itself, and one for every byte of
its ends that is not next to the dash. -/
def rangeWidth (r : Char × Char) : Nat :=
  if r.1 = r.2 then (bytesOf r.1).length else (bytesOf r.1).length + (bytesOf r.2).length - 1

def setDepth (ranges : List (Char × Char)) : Nat :=
  Extent.rowDepth ⟨(ranges.map rangeWidth).foldr (· + ·) 0, 1⟩

mutual

/-- How far the elements of a part extend. -/
def Part.extent (bySegment : Bool) : Part → Extent
  | .literal c => ⟨(bytesOf c).length, 0⟩
  | .one => ⟨1, if bySegment then 1 else 0⟩
  | .many => ⟨1, if bySegment then 2 else 1⟩
  | .leading => ⟨1, 4⟩
  | .trailing => ⟨2, 1⟩
  | .between => ⟨1, 4⟩
  | .oneOf _ ranges => ⟨1, setDepth ranges⟩
  | .choice alternatives =>
    let e := extentOfAny bySegment alternatives
    if e.width = 0 then {} else ⟨1, e.rowDepth + 1⟩

/-- How far parts in a row extend. -/
def extentOfAll (bySegment : Bool) : List Part → Extent
  | [] => {}
  | p :: rest => (p.extent bySegment).append (extentOfAll bySegment rest)

/-- How far alternatives extend, each of them as one element; those that are void do not count. -/
def extentOfAny (bySegment : Bool) : List (List Part) → Extent
  | [] => {}
  | a :: rest =>
    let others := extentOfAny bySegment rest
    if allVoid a then others
    else (Extent.mk 1 (extentOfAll bySegment a).rowDepth).append others

end

/-- The depth of the expression of a glob, whose elements stand between two anchors. -/
def depth (g : Glob) : Nat :=
  (extentOfAll g.bySegment g.parts).depth + 1

/-- The depth up to which expressions are compiled. -/
def maxDepth : Nat := 250

/-- Whether the expression of a glob is compiled. -/
def fits (g : Glob) : Bool :=
  g.depth ≤ maxDepth

end CodeGraph.Glob
