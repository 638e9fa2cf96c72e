import CodeGraph.Text.Age
import CodeGraph.Text.Break

/-!
# Sets of characters

The sets that a pattern names: ranges, the classes of digits, blanks and word characters, and the
properties of the character database, with union, intersection, difference and complement.
`CharSet.has` decides membership.
-/

namespace CodeGraph

namespace Text

/-- Whether a character is a decimal digit of any script. -/
def isDigit (c : Char) : Bool :=
  category .sixteenth c == .decimalDigit

/-- Whether a character is part of words. -/
def isWordChar (c : Char) : Bool :=
  isLetter .sixteenth c ||
    match category .sixteenth c with
    | .nonspacingMark | .spacingMark | .enclosingMark | .decimalDigit | .connector => true
    | _ => c == '\u200c' || c == '\u200d'

/-- Whether a character is part of words that know no letters but those of ASCII. -/
def isPlainWordChar (c : Char) : Bool :=
  c.isAlphanum || c == '_'

end Text

namespace Pattern

/-- A set that the character database gives. -/
inductive DatabaseSet where
  | digit
  | blank
  | word
  | categories (l : List Text.Category)
  | property (p : Text.Property)
  | script (s : Text.Script)
  | usedIn (s : Text.Script)
  | known (a : Text.Age)
  | graphemeBreak (k : Text.GraphemeBreak)
  | wordBreak (k : Text.WordBreak)
  | sentenceBreak (k : Text.SentenceBreak)
  deriving Repr, Inhabited

/-- Whether a character is in a set of the database. -/
def DatabaseSet.has : DatabaseSet → Char → Bool
  | .digit, c => Text.isDigit c
  | .blank, c => Text.isBlank c
  | .word, c => Text.isWordChar c
  | .categories l, c => l.contains (Text.category .sixteenth c)
  | .property p, c => p.holds c
  | .script s, c => s.has c
  | .usedIn s, c => s.uses c
  | .known a, c => a.has c
  | .graphemeBreak k, c => Text.graphemeBreak c == k
  | .wordBreak k, c => Text.wordBreak c == k
  | .sentenceBreak k, c => Text.sentenceBreak c == k

/-- A set of characters. -/
inductive CharSet where
  | ranges (l : List (Char × Char))
  | database (s : DatabaseSet)
  | union (a b : CharSet)
  | inter (a b : CharSet)
  | diff (a b : CharSet)
  /-- What is in one of two sets only. -/
  | either (a b : CharSet)
  | compl (a : CharSet)
  /-- What differs only in case from a member. -/
  | folded (a : CharSet)
  /-- What differs only in the case of an ASCII letter from a member. -/
  | plainFolded (a : CharSet)
  deriving Repr, Inhabited

namespace CharSet

/-- Whether a character is in a set. -/
def has : CharSet → Char → Bool
  | .ranges l, c => l.any fun r => r.1 ≤ c && c ≤ r.2
  | .database s, c => s.has c
  | .union a b, c => a.has c || b.has c
  | .inter a b, c => a.has c && b.has c
  | .diff a b, c => a.has c && !b.has c
  | .either a b, c => a.has c != b.has c
  | .compl a, c => !a.has c
  | .folded a, c => (Text.caseVariants c).any a.has
  | .plainFolded a, c => a.has c || a.has c.toLower || a.has c.toUpper

def none : CharSet := .ranges []

def single (c : Char) : CharSet := .ranges [(c, c)]

/-- The characters from one to another. -/
def range (a b : Char) : CharSet := .ranges [(a, b)]

/-- The set of a list of characters. -/
def ofList (l : List Char) : CharSet := .ranges (l.map fun c => (c, c))

/-- Takes the complement if asked to. -/
def complementIf (negated : Bool) (s : CharSet) : CharSet :=
  if negated then .compl s else s

def plainDigit : CharSet := .range '0' '9'

def plainBlank : CharSet := .ofList [' ', '\t', '\n', '\x0b', '\x0c', '\r']

def plainWord : CharSet := .ranges [('0', '9'), ('A', 'Z'), ('a', 'z'), ('_', '_')]

/-- Whether all members are ASCII as far as bytes go. -/
def isPlain (s : CharSet) : Bool :=
  (List.range 128).all fun i => !s.has (Char.ofNat (128 + i))

/-- The classes that are named between colons. -/
def named? (name : String) : Option CharSet :=
  match name with
  | "alnum" => some (.ranges [('0', '9'), ('A', 'Z'), ('a', 'z')])
  | "alpha" => some (.ranges [('A', 'Z'), ('a', 'z')])
  | "ascii" => some (.range '\x00' '\x7f')
  | "blank" => some (.ofList ['\t', ' '])
  | "cntrl" => some (.ranges [('\x00', '\x1f'), ('\x7f', '\x7f')])
  | "digit" => some plainDigit
  | "graph" => some (.range '!' '~')
  | "lower" => some (.range 'a' 'z')
  | "print" => some (.range ' ' '~')
  | "punct" => some (.ranges [('!', '/'), (':', '@'), ('[', '\x60'), ('\x7b', '~')])
  | "space" => some plainBlank
  | "upper" => some (.range 'A' 'Z')
  | "word" => some plainWord
  | "xdigit" => some (.ranges [('0', '9'), ('A', 'F'), ('a', 'f')])
  | _ => Option.none

end CharSet

end Pattern

end CodeGraph
