import CodeGraph.Pattern.CharSet

/-!
# Patterns

A pattern is a regular expression: characters from sets, assertions about the place in the text,
sequences, choices, repetitions and groups, some of them named. A choice prefers its first part,
and a repetition prefers more or fewer rounds.

All modes that a pattern switches on and off have been resolved: there is nothing left in it that
depends on a mode.
-/

namespace CodeGraph

namespace Pattern

/-- An assertion about the place between two characters. -/
inductive Look where
  | textStart
  | textEnd
  | lineStart
  | lineEnd
  /-- As `lineStart`, where a carriage return with a line feed is one line break. -/
  | breakStart
  /-- As `lineEnd`, where a carriage return with a line feed is one line break. -/
  | breakEnd
  /-- A word starts or ends here; `plain` words know no letters but those of ASCII. -/
  | boundary (plain : Bool)
  | noBoundary (plain : Bool)
  | wordStart (plain : Bool)
  | wordEnd (plain : Bool)
  /-- No word goes on from before. -/
  | halfStart (plain : Bool)
  /-- No word goes on from here. -/
  | halfEnd (plain : Bool)
  deriving DecidableEq, Repr

namespace Look

/-- Whether a character is there and is part of words. -/
def isWord (plain : Bool) (c : Option Char) : Bool :=
  c.any (if plain then Text.isPlainWordChar else Text.isWordChar)

/-- Whether an assertion holds between two characters; there is none at the ends of the text. -/
def holds (before after : Option Char) : Look → Bool
  | .textStart => before.isNone
  | .textEnd => after.isNone
  | .lineStart => before.all (· == '\n')
  | .lineEnd => after.all (· == '\n')
  | .breakStart =>
    before.isNone || before == some '\n' || (before == some '\r' && after != some '\n')
  | .breakEnd =>
    after.isNone || after == some '\r' || (after == some '\n' && before != some '\r')
  | .boundary plain => isWord plain before != isWord plain after
  | .noBoundary plain => isWord plain before == isWord plain after
  | .wordStart plain => !isWord plain before && isWord plain after
  | .wordEnd plain => isWord plain before && !isWord plain after
  | .halfStart plain => !isWord plain before
  | .halfEnd plain => !isWord plain after

end Look

end Pattern

open Pattern in
/-- A regular expression. -/
inductive Pattern where
  | empty
  | set (s : CharSet)
  | look (l : Look)
  | seq (a b : Pattern)
  | alt (a b : Pattern)
  /-- At least `least` rounds, and at most `most` if there is a bound. -/
  | rounds (least : Nat) (most : Option Nat) (greedy : Bool) (p : Pattern)
  | group (name : Option String) (p : Pattern)
  deriving Repr, Inhabited

namespace Pattern

def sequence : List Pattern → Pattern
  | [] => .empty
  | [p] => p
  | p :: rest => .seq p (sequence rest)

/-- The set of a pattern that takes one character of a set. -/
def charSet? : Pattern → Option CharSet
  | .set s => some s
  | _ => none

/-- A choice between patterns; one between sets is a set. -/
def choice (l : List Pattern) : Pattern :=
  match l.mapM charSet? with
  | some (s :: rest) => .set (rest.foldl .union s)
  | _ => branches l
where
  /-- The branches of a choice. -/
  branches : List Pattern → Pattern
    | [] => .empty
    | [p] => p
    | p :: rest => .alt p (branches rest)

/-- Whether a match never takes a character. -/
def takesNone : Pattern → Bool
  | .empty | .look _ => true
  | .set _ => false
  | .seq a b | .alt a b => a.takesNone && b.takesNone
  | .rounds _ most _ p => most == some 0 || p.takesNone
  | .group _ p => p.takesNone

/-- A repetition. Rounds that take nothing are one round at most, no rounds are the empty pattern
whatever there would be in them, and one round is the pattern itself. -/
def repeated (least : Nat) (most : Option Nat) (greedy : Bool) (p : Pattern) : Pattern :=
  let (least, most) :=
    if p.takesNone then (min least 1, some ((most.map (min 1)).getD 1)) else (least, most)
  if most = some 0 then .empty
  else if least = 1 ∧ most = some 1 then p
  else .rounds least most greedy p

/-- The names of the groups, in the order of their opening. -/
def groupNames : Pattern → List String
  | .empty | .set _ | .look _ => []
  | .seq a b | .alt a b => a.groupNames ++ b.groupNames
  | .rounds _ _ _ p => p.groupNames
  | .group name p => name.toList ++ p.groupNames

/-- Whether a match always takes a character. -/
def takesSome : Pattern → Bool
  | .empty | .look _ => false
  | .set _ => true
  | .seq a b => a.takesSome || b.takesSome
  | .alt a b => a.takesSome && b.takesSome
  | .rounds least _ _ p => least != 0 && p.takesSome
  | .group _ p => p.takesSome

end Pattern

end CodeGraph
