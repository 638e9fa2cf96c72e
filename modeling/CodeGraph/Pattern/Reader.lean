import CodeGraph.Pattern.SetName
import CodeGraph.Pattern.Size

/-!
# Reading patterns

The written form of a pattern, with its modes: ignoring case (`i`), lines (`m`), a dot that takes
line breaks (`s`), swapped preference (`U`), characters rather than ASCII (`u`), carriage returns as
line breaks (`R`) and blanks that do not count (`x`). A mode holds to the end of the group in which
it is switched.

`Pattern.ofText?` gives the pattern, or nothing if the text is none. A pattern that nests too deep
or takes too much room is none either. How deep a pattern nests is counted on the text as it is
written: a sequence or a choice of several parts, a repetition, a group and a class in brackets are
one level each around their parts, and so is every operator in a class.
-/

namespace CodeGraph.Pattern

/-- The modes. -/
structure Modes where
  ignoreCase : Bool := false
  lines : Bool := false
  dotAll : Bool := false
  swapped : Bool := false
  wide : Bool := true
  returns : Bool := false
  spaced : Bool := false
  deriving DecidableEq, Repr, Inhabited

/-- What is left of a text, the modes, and the names of groups so far. -/
structure ReaderState where
  rest : List Char
  modes : Modes := {}
  names : List String := []

/-- Readers of parts of a pattern. -/
abbrev Reader := StateT ReaderState Option

/-- A part of a pattern inside or outside of a class. -/
inductive Atom where
  | char (c : Char)
  | set (s : CharSet)
  | look (l : Look)

namespace Reader

def peek : Reader (Option Char) := do
  return (← get).rest.head?

/-- The character after the next one. -/
def peekSecond : Reader (Option Char) := do
  return (← get).rest.tail.head?

def skip (n : Nat) : Reader Unit :=
  modify fun s => { s with rest := s.rest.drop n }

/-- The next character, which has to be there. -/
def next : Reader Char := do
  match (← get).rest with
  | [] => failure
  | c :: rest =>
    modify fun s => { s with rest }
    return c

/-- The text after blanks and comments. -/
def withoutBlanks : Nat → List Char → List Char
  | 0, cs => cs
  | fuel + 1, cs =>
    match cs.dropWhile Text.isBlank with
    | '#' :: rest => withoutBlanks fuel ((rest.dropWhile (· != '\n')).drop 1)
    | rest => rest

/-- Passes over blanks and comments if they do not count. -/
def skipBlanks : Reader Unit :=
  modify fun s =>
    if s.modes.spaced then { s with rest := withoutBlanks s.rest.length s.rest } else s

/-- The next character after blanks that do not count, which has to be there. -/
def nextCounted : Reader Char := do
  skipBlanks
  next

/-- The next character after the current one and blanks that do not count. -/
def peekCounted : Reader (Option Char) := do
  let s ← get
  skip 1
  skipBlanks
  let c ← peek
  modify fun _ => s
  return c

/-- The character that decides whether a minus sign in a class stands for a range: the next one
after the sign and blanks that do not count, where of a comment only its sign counts as blank. -/
def peekAfterSign : Reader (Option Char) := do
  let s ← get
  let rest := s.rest.tail
  if !s.modes.spaced then return rest.head?
  let found := match rest.dropWhile Text.isBlank with
    | '#' :: comment => (comment.dropWhile Text.isBlank).head?
    | cs => cs.head?
  return found.or rest.head?

end Reader

open Reader

/-! ## Sets under the modes -/

/-- A set under the mode for case. -/
def Modes.cased (m : Modes) (s : CharSet) : CharSet :=
  if !m.ignoreCase then s else if m.wide then .folded s else .plainFolded s

/-- A set as the modes allow it; outside of the wide mode only ASCII can be taken. -/
def allowed (s : CharSet) : Reader CharSet := do
  if !(← get).modes.wide && !s.isPlain then failure
  return s

def charPattern (c : Char) : Reader Pattern := do
  return .set ((← get).modes.cased (.single c))

def dotSet : Reader CharSet := do
  let m := (← get).modes
  if !m.wide then failure
  if m.dotAll then return .compl .none
  if m.returns then return .compl (.ofList ['\n', '\r'])
  return .compl (.single '\n')

/-- The class of a letter after a backslash. -/
def letterClass? (wide : Bool) (c : Char) : Option CharSet :=
  match c with
  | 'd' => some (if wide then (.database .digit) else .plainDigit)
  | 'D' => some (.compl (if wide then (.database .digit) else .plainDigit))
  | 's' => some (if wide then (.database .blank) else .plainBlank)
  | 'S' => some (.compl (if wide then (.database .blank) else .plainBlank))
  | 'w' => some (if wide then (.database .word) else .plainWord)
  | 'W' => some (.compl (if wide then (.database .word) else .plainWord))
  | _ => none

/-! ## Escapes -/

def hexNumber? (ds : List Char) : Option Nat :=
  ds.foldlM (fun n d =>
    if '0' ≤ d ∧ d ≤ '9' then some (n * 16 + (d.toNat - 48))
    else if 'a' ≤ d ∧ d ≤ 'f' then some (n * 16 + (d.toNat - 87))
    else if 'A' ≤ d ∧ d ≤ 'F' then some (n * 16 + (d.toNat - 55))
    else none) 0

/-- The character of a code point. -/
def charOf (n : Nat) : Reader Char :=
  if n.isValidChar then return Char.ofNat n else failure

/-- A number of characters that count. -/
def nextMany : Nat → Reader (List Char)
  | 0 => return []
  | n + 1 => do
    let c ← nextCounted
    return c :: (← nextMany n)

/-- The characters that count, up to a closing brace. -/
def untilBrace : Nat → Reader (List Char)
  | 0 => failure
  | fuel + 1 => do
    let c ← nextCounted
    if c = '\x7d' then return []
    return c :: (← untilBrace fuel)

/-- A character by its code point, after the letter that says how many digits there are. -/
def readHex (width : Nat) : Reader Atom := do
  skipBlanks
  if (← peek) = some '\x7b' then
    skip 1
    let ds ← untilBrace (← get).rest.length
    if ds = [] then failure
    return .char (← charOf (← hexNumber? ds))
  else
    let c ← charOf (← hexNumber? (← nextMany width))
    if width = 2 ∧ !(← get).modes.wide ∧ 0x7f < c.toNat then failure
    return .char c

/-- The index of the first place where a list has another as its front. -/
def findFront (part : List Char) : List Char → Option (List Char × List Char)
  | [] => none
  | c :: cs =>
    if part.isPrefixOf (c :: cs) then some ([], (c :: cs).drop part.length)
    else (findFront part cs).map fun (a, b) => (c :: a, b)

/-- The set of a property in braces, which may have a value after one of three signs. -/
def propertySet? (cs : List Char) : Option CharSet :=
  let pair (sep : List Char) : Option (String × String) :=
    (findFront sep cs).map fun (a, b) => (String.ofList a, String.ofList b)
  match (pair ['!', '=']).or ((pair [':']).or (pair ['='])) with
  | some (property, value) => SetName.setOfValue? property value
  | none => SetName.set? (String.ofList cs)

/-- A class by a property, after its letter. -/
def readProperty (negated : Bool) : Reader Atom := do
  let m := (← get).modes
  if !m.wide then failure
  let c ← nextCounted
  let s ← if c = '\x7b' then do propertySet? (← untilBrace (← get).rest.length)
    else SetName.set? (String.singleton c)
  return .set (.complementIf negated (m.cased s))

/-- The boundary that a name in braces after `\b` means. -/
def namedBoundary? (plain : Bool) (name : String) : Option Look :=
  match name with
  | "start" => some (.wordStart plain)
  | "end" => some (.wordEnd plain)
  | "start-half" => some (.halfStart plain)
  | "end-half" => some (.halfEnd plain)
  | _ => none

/-- The boundary after `\b`, which may have a name in braces. -/
def readBoundary : Reader Atom := do
  let plain := !(← get).modes.wide
  if (← peek) ≠ some '\x7b' then return .look (.boundary plain)
  match ← peekCounted with
  | none => failure
  | some c =>
    if c.isAlpha ∨ c = '-' then
      skip 1
      let name ← untilBrace (← get).rest.length
      return .look (← namedBoundary? plain (String.ofList name))
    else return .look (.boundary plain)

/-- Whether a character stands for itself after a backslash. -/
def isEscapable (c : Char) : Bool :=
  c.toNat < 0x80 && !c.isAlphanum && c != '<' && c != '>'

def readEscape : Reader Atom := do
  let wide := (← get).modes.wide
  let c ← next
  match letterClass? wide c with
  | some s => return .set (← allowed s)
  | none =>
    if isEscapable c then return .char c
    match c with
    | 'x' => readHex 2
    | 'u' => readHex 4
    | 'U' => readHex 8
    | 'p' => readProperty false
    | 'P' => readProperty true
    | 'a' => return .char '\x07'
    | 'f' => return .char '\x0c'
    | 't' => return .char '\t'
    | 'n' => return .char '\n'
    | 'r' => return .char '\r'
    | 'v' => return .char '\x0b'
    | 'A' => return .look .textStart
    | 'z' => return .look .textEnd
    | 'b' => readBoundary
    | 'B' => return .look (.noBoundary !wide)
    | '<' => return .look (.wordStart !wide)
    | '>' => return .look (.wordEnd !wide)
    | _ => failure

/-! ## Classes -/

/-- A character or class inside brackets. -/
def readClassAtom : Reader Atom := do
  let c ← next
  if c = '\\' then readEscape else return .char c

/-- The set of a part inside brackets. -/
def atomSet (a : Atom) : Reader CharSet := do
  match a with
  | .char c =>
    if !(← get).modes.wide ∧ 0x7f < c.toNat then failure
    return .single c
  | .set s => return s
  | .look _ => failure

/-- A character or a range of characters inside brackets. -/
def readClassRange : Reader CharSet := do
  let a ← readClassAtom
  skipBlanks
  match ← peek with
  | none => failure
  | some c =>
    let second ← peekAfterSign
    if c ≠ '-' ∨ second = some ']' ∨ second = some '-' then atomSet a
    else
      skip 1
      skipBlanks
      let b ← readClassAtom
      match a, b with
      | .char low, .char high =>
        if high < low then failure
        if !(← get).modes.wide ∧ 0x7f < high.toNat then failure
        return .range low high
      | _, _ => failure

/-- A class by its name between colons, if there is one. -/
def readNamedClass : Reader (Option CharSet) := do
  match (← get).rest with
  | '[' :: ':' :: cs =>
    let (negated, cs) := match cs with
      | '^' :: cs => (true, cs)
      | cs => (false, cs)
    match findFront [':', ']'] cs with
    | some (name, rest) =>
      match CharSet.named? (String.ofList name) with
      | some s =>
        modify fun st => { st with rest }
        return some (← allowed (.complementIf negated ((← get).modes.cased s)))
      | none => return none
    | none => return none
  | _ => return none

/-- How two sets are joined. -/
inductive SetOp where
  | inter
  | diff
  | either

/-- What has been read of a class: the set, the operation and the levels before the last operator,
and the union since then with the number of its parts and their levels. -/
structure ClassSoFar where
  left : Option (CharSet × SetOp × Nat) := none
  union : CharSet := .none
  parts : Nat := 0
  levels : Nat := 0

namespace ClassSoFar

/-- The set of what has been read, its operands brought into the mode for case. -/
def set (m : Modes) (k : ClassSoFar) : CharSet :=
  match k.left with
  | none => k.union
  | some (a, .inter, _) => .inter (m.cased a) (m.cased k.union)
  | some (a, .diff, _) => .diff (m.cased a) (m.cased k.union)
  | some (a, .either, _) => .either (m.cased a) (m.cased k.union)

/-- How deep what has been read nests. -/
def nesting (k : ClassSoFar) : Nat :=
  let right := if k.parts ≤ 1 then k.levels else k.levels + 1
  match k.left with
  | none => right
  | some (_, _, left) => max left right + 1

/-- Adds a set of some levels to the union. -/
def add (k : ClassSoFar) (s : CharSet) (levels : Nat) : ClassSoFar :=
  { k with union := .union k.union s, parts := k.parts + 1, levels := max k.levels levels }

def operator (m : Modes) (op : SetOp) (k : ClassSoFar) : ClassSoFar :=
  { left := some (k.set m, op, k.nesting) }

end ClassSoFar

/-- The minus signs at the start of a class, which stand for themselves. -/
def readClassStart : Nat → ClassSoFar → Reader ClassSoFar
  | 0, _ => failure
  | fuel + 1, k => do
    skipBlanks
    match ← peek with
    | some '-' =>
      skip 1
      readClassStart fuel (k.add (.single '-') 0)
    | some _ => return k
    | none => failure

/-- The rest of a class, after its bracket or in the middle of it, with its levels. -/
def readClass : Nat → Option (Bool × ClassSoFar) → Reader (CharSet × Nat)
  | 0, _ => failure
  | fuel + 1, none => do
    skipBlanks
    let negated := (← peek) = some '^'
    if negated then skip 1
    let k ← readClassStart fuel {}
    if k.parts = 0 ∧ (← peek) = some ']' then
      skip 1
      skipBlanks
      readClass fuel (some (negated, k.add (.single ']') 0))
    else readClass fuel (some (negated, k))
  | fuel + 1, some (negated, k) => do
    skipBlanks
    let m := (← get).modes
    let joined (op : SetOp) : Reader (CharSet × Nat) := do
      skip 2
      readClass fuel (some (negated, k.operator m op))
    match ← peek with
    | none => failure
    | some '[' =>
      match ← readNamedClass with
      | some s => readClass fuel (some (negated, k.add s 0))
      | none =>
        skip 1
        let (s, levels) ← readClass fuel none
        readClass fuel (some (negated, k.add s levels))
    | some ']' =>
      skip 1
      return (← allowed (.complementIf negated (m.cased (k.set m))), k.nesting + 1)
    | some c =>
      let twice := (← peekSecond) = some c
      if c = '&' ∧ twice then joined .inter
      else if c = '-' ∧ twice then joined .diff
      else if c = '~' ∧ twice then joined .either
      else
        let s ← readClassRange
        readClass fuel (some (negated, k.add s 0))

/-! ## Repetitions -/

/-- The digits of a number; between them blanks may stand that do not count. -/
def readDigits : Nat → Reader (List Char)
  | 0 => return []
  | fuel + 1 => do
    match ← peek with
    | some c =>
      if !c.isDigit then return []
      skip 1
      skipBlanks
      return c :: (← readDigits fuel)
    | none => return []

/-- Passes over blanks in any mode. -/
def skipAnyBlanks : Reader Unit := do
  modify fun s => { s with rest := s.rest.dropWhile Text.isBlank }
  skipBlanks

/-- A decimal number with blanks around it. -/
def readNumber : Reader Nat := do
  modify fun s => { s with rest := s.rest.dropWhile Text.isBlank }
  let ds ← readDigits (← get).rest.length
  skipAnyBlanks
  if ds = [] then failure
  let n : Nat := ds.foldl (fun n d => n * 10 + (d.toNat - 48)) 0
  if UInt32.size ≤ n then failure
  return n

/-- Bounds in braces, after the opening brace. -/
def readBounds : Reader (Nat × Option Nat) := do
  skipBlanks
  let least ← readNumber
  let c ← next
  if c = '\x7d' then return (least, some least)
  if c ≠ ',' then failure
  skipBlanks
  if (← peek) = some '\x7d' then
    skip 1
    return (least, none)
  let most ← readNumber
  if (← next) ≠ '\x7d' then failure
  if most < least then failure
  return (least, some most)

/-- Whether a question mark follows, which turns the preference around. -/
def readGreedy : Reader Bool := do
  let swapped := (← get).modes.swapped
  if (← peek) = some '?' then
    skip 1
    return swapped
  return !swapped

/-! ## Groups -/

def Modes.switch? (m : Modes) (c : Char) (on : Bool) : Option Modes :=
  match c with
  | 'i' => some { m with ignoreCase := on }
  | 'm' => some { m with lines := on }
  | 's' => some { m with dotAll := on }
  | 'U' => some { m with swapped := on }
  | 'u' => some { m with wide := on }
  | 'R' => some { m with returns := on }
  | 'x' => some { m with spaced := on }
  | _ => none

/-- Switches of modes up to a colon or a closing parenthesis; the answer tells which of them ends
the switches. No mode is switched twice, and a minus sign comes once and not at the end. -/
def readSwitches : Nat → Bool → List Char → Modes → Reader (Modes × Bool)
  | 0, _, _, _ => failure
  | fuel + 1, on, seen, m => do
    let c ← next
    if c = ':' ∨ c = ')' then
      if seen.head? = some '-' ∨ (c = ')' ∧ seen = []) then failure
      return (m, c = ':')
    if seen.contains c then failure
    if c = '-' then readSwitches fuel false (c :: seen) m
    else readSwitches fuel on (c :: seen) (← m.switch? c on)

/-- The name of a group, up to its closing bracket. -/
def readName : Reader String := do
  let cs := (← get).rest
  let name := cs.takeWhile (· != '>')
  let good (c : Char) : Bool :=
    c == '_' || c == '.' || c == '[' || c == ']' || Text.isLetter .seventeenth c ||
      Text.isNumber .seventeenth c
  match name with
  | [] => failure
  | c :: rest =>
    if !(c = '_' ∨ Text.isLetter .seventeenth c) ∨ !rest.all good ∨ cs.length = name.length then
      failure
    let name := String.ofList name
    if (← get).names.contains name then failure
    modify fun s => { s with rest := cs.drop (rest.length + 2), names := name :: s.names }
    return name

/-- How a group opens. -/
inductive Opening where
  | group (name : Option String)
  /-- A group whose parts have modes of their own. -/
  | modes (m : Modes)
  /-- No group: the modes change from here on. -/
  | switch (m : Modes)

def readOpening : Reader Opening := do
  skipBlanks
  match (← get).rest with
  | '?' :: '=' :: _ => failure
  | '?' :: '!' :: _ => failure
  | '?' :: '<' :: '=' :: _ => failure
  | '?' :: '<' :: '!' :: _ => failure
  | '?' :: 'P' :: '<' :: _ =>
    skip 3
    return .group (some (← readName))
  | '?' :: '<' :: _ =>
    skip 2
    return .group (some (← readName))
  | '?' :: rest =>
    skip 1
    let (m, isGroup) ← readSwitches (rest.length + 1) true [] (← get).modes
    return if isGroup then .modes m else .switch m
  | _ => return .group none

/-! ## The whole -/

/-- A part of a pattern, with how deep it nests. A switch of modes is a part without a pattern. -/
structure Part where
  pattern : Option Pattern
  nesting : Nat := 0

namespace Part

/-- How deep several parts nest in the level around them; a single part needs no such level. -/
def around (l : List Part) : Nat :=
  let deepest := l.foldl (fun n p => max n p.nesting) 0
  if l.length ≤ 1 then deepest else deepest + 1

def sequence (l : List Part) : Part :=
  ⟨Pattern.sequence (l.filterMap Part.pattern), around l⟩

def choice (l : List Part) : Part :=
  ⟨Pattern.choice (l.filterMap Part.pattern), around l⟩

/-- The pattern of a part, empty if it has none. -/
def whole (p : Part) : Pattern :=
  p.pattern.getD .empty

end Part

/-- The pattern of a part outside of brackets. -/
def atomPattern (a : Atom) : Reader Pattern := do
  match a with
  | .char c => charPattern c
  | .set s => return .set s
  | .look l => return .look l

/-- The assertion of `^` or `$` under the modes. -/
def lineLook (atStart : Bool) : Reader Look := do
  let m := (← get).modes
  return match atStart, m.lines, m.returns with
    | true, false, _ => .textStart
    | false, false, _ => .textEnd
    | true, true, false => .lineStart
    | false, true, false => .lineEnd
    | true, true, true => .breakStart
    | false, true, true => .breakEnd

/-- Puts a repetition on the last part, which has to be there and be a pattern. -/
def repeatLast (least : Nat) (most : Option Nat) : List Part → Reader (List Part)
  | ⟨some p, nesting⟩ :: parts => do
    return ⟨some (.repeated least most (← readGreedy) p), nesting + 1⟩ :: parts
  | _ => failure

/-- The rest of a group or of the whole: the branches before and the parts so far, both in
reverse. -/
def readBranches : Nat → List Part → List Part → Reader Part
  | 0, _, _ => failure
  | fuel + 1, branches, parts => do
    skipBlanks
    let more (p : Pattern) (nesting : Nat) : Reader Part :=
      readBranches fuel branches (⟨some p, nesting⟩ :: parts)
    let repeated (least : Nat) (most : Option Nat) : Reader Part := do
      readBranches fuel branches (← repeatLast least most parts)
    let all := (Part.sequence parts.reverse :: branches).reverse
    match ← peek with
    | none => return .choice all
    | some ')' => return .choice all
    | some c =>
      skip 1
      match c with
      | '|' => readBranches fuel (.sequence parts.reverse :: branches) []
      | '(' =>
        let m := (← get).modes
        let inside (modes : Modes) : Reader Part := do
          modify fun s => { s with modes }
          let p ← readBranches fuel [] []
          if (← next) ≠ ')' then failure
          modify fun s => { s with modes := m }
          return p
        match ← readOpening with
        | .switch modes =>
          modify fun s => { s with modes }
          readBranches fuel branches (⟨none, 0⟩ :: parts)
        | .modes modes =>
          let p ← inside modes
          more p.whole (p.nesting + 1)
        | .group name =>
          let p ← inside m
          more (.group name p.whole) (p.nesting + 1)
      | '[' =>
        let (s, nesting) ← readClass fuel none
        more (.set s) nesting
      | '.' => more (.set (← dotSet)) 0
      | '^' => more (.look (← lineLook true)) 0
      | '$' => more (.look (← lineLook false)) 0
      | '*' => repeated 0 none
      | '+' => repeated 1 none
      | '?' => repeated 0 (some 1)
      | '\x7b' =>
        if (parts.head?.bind Part.pattern).isNone then failure
        let (least, most) ← readBounds
        skipBlanks
        repeated least most
      | '\\' => more (← atomPattern (← readEscape)) 0
      | c => more (← charPattern c) 0

/-- How deep the parts of a pattern may nest. -/
def deepestNesting : Nat := 250

def ofText? (s : String) : Option Pattern := do
  let cs := s.toList
  let (p, st) ← (readBranches (cs.length + 1) [] []).run { rest := cs }
  if st.rest = [] ∧ p.nesting ≤ deepestNesting ∧ p.whole.fits then some p.whole else none

end CodeGraph.Pattern
