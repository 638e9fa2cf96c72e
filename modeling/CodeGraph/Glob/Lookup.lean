import CodeGraph.Glob.Expression

/-!
# Globs that are used together

Globs that are used together are looked up in different ways. One that is a text, or asks for the
start, the end, the name or the extension of a path only, needs no expression. One that ends in an
extension is tried on paths with that extension, by an expression of its own; all others are
compiled together.

Where one expression is not compiled, the globs cannot be used at all (`Glob.fault?`). Which one is
found first depends on how it is looked up.
-/

namespace CodeGraph.Glob

/-- How a glob is looked up. -/
inductive Lookup where
  /-- By comparing texts. -/
  | byText
  /-- By its extension and then by its expression. -/
  | byExtension
  | byExpression
  deriving DecidableEq, Repr

namespace Lookup

/-- Whether a part is a character. -/
def isLiteral : Part → Bool
  | .literal _ => true
  | _ => false

/-- Whether a part is a given character. -/
def isChar (c : Char) : Part → Bool
  | .literal c' => c' == c
  | _ => false

def isText (parts : List Part) : Bool :=
  !parts.isEmpty && parts.all isLiteral

/-- Whether a run of bytes takes slashes. -/
def isWide (bySegment : Bool) : Part → Bool
  | .many => !bySegment
  | _ => false

/-- Whether parts are a run of bytes and an extension, at any depth. -/
def asksExtension (bySegment : Bool) (parts : List Part) : Bool :=
  let (atAnyDepth, parts) := match parts with
    | .leading :: rest => (true, rest)
    | parts => (false, parts)
  match parts with
  | .many :: dot :: rest =>
    (atAnyDepth || !bySegment) && isChar '.' dot && rest.all isLiteral &&
      !rest.any (fun p => isChar '.' p || isChar '/' p)
  | _ => false

/-- Whether parts are a text and all that starts with it. -/
def asksStart (bySegment : Bool) (parts : List Part) : Bool :=
  match parts.getLast? with
  | some .trailing => parts.dropLast.all isLiteral
  | some p => isWide bySegment p && isText parts.dropLast
  | none => false

/-- Whether parts are a text and all that ends with it. -/
def asksEnd (bySegment : Bool) (parts : List Part) : Bool :=
  let afterRun (parts : List Part) : Bool :=
    match parts with
    | p :: rest =>
      isWide bySegment p && isText rest && !(rest.length == 1 && rest.all (isChar '/'))
    | [] => false
  match parts with
  | .leading :: rest => isText rest || afterRun rest
  | parts => afterRun parts

/-- Whether parts end in an extension. -/
def hasExtension (parts : List Part) : Bool :=
  let ending := parts.reverse.takeWhile fun p => isLiteral p && !isChar '.' p
  !ending.any (isChar '/') && ((parts.reverse.drop ending.length).head?.any (isChar '.'))

end Lookup

open Lookup in
/-- How a glob is looked up. -/
def lookup (g : Glob) : Lookup :=
  if isText g.parts || asksExtension g.bySegment g.parts || asksStart g.bySegment g.parts ||
      asksEnd g.bySegment g.parts then .byText
  else if hasExtension g.parts then .byExtension
  else .byExpression

/-- Why globs cannot be used together. -/
inductive Fault where
  /-- The expression of a glob with an extension is not compiled. -/
  | alone (g : Glob)
  /-- Of the expressions that are compiled together, the one with this number is not. -/
  | numbered (n : Nat)

def Fault.message : Fault → String
  | .alone g => "error parsing glob '" ++ g.expression ++ "': error parsing pattern 0"
  | .numbered n => "error parsing pattern " ++ toString n

/-- What keeps globs from being used together. -/
def fault? (globs : List Glob) : Option Fault :=
  match (globs.filter fun g => g.lookup = .byExtension).find? fun g => !g.fits with
  | some g => some (.alone g)
  | none =>
    ((globs.filter fun g => g.lookup = .byExpression).findIdx? fun g => !g.fits).map .numbered

end CodeGraph.Glob
