import CodeGraph.Pattern.Basic

/-!
# Size of patterns

A pattern is to be compiled into an automaton on the bytes of UTF-8, once for reading forwards and
once for reading backwards, and neither may take more than a fixed room. This module counts the room
without building the automata: a state takes `stateRoom`, a transition on a range of bytes
`transitionRoom` and a link to another state `linkRoom`.

Forwards the states for a set of characters are shared as far as what follows them is the same,
backwards as far as what precedes them is. `fits` decides whether both automata stay within the
room.
-/

namespace CodeGraph.Pattern

/-! ## Ranges of code points -/

/-- Ranges of code points, in order and apart from one another. -/
abbrev CodeRanges := List (Nat × Nat)

namespace CodeRanges

/-- Joins ranges in order that overlap or touch. -/
def join : CodeRanges → CodeRanges
  | [] => []
  | r :: rest =>
    match join rest with
    | [] => [r]
    | s :: more => if s.1 ≤ r.2 + 1 then (r.1, max r.2 s.2) :: more else r :: s :: more

/-- Ranges of any order as ranges in order. -/
def ofList (l : List (Nat × Nat)) : CodeRanges :=
  join (l.mergeSort fun a b => a.1 ≤ b.1)

/-- The code points of either of two. -/
def union (a b : CodeRanges) : CodeRanges :=
  ofList (a ++ b)

/-- The code points from one on that are in none of the ranges. -/
def complFrom (code : Nat) : CodeRanges → CodeRanges
  | [] => if code ≤ 0x10ffff then [(code, 0x10ffff)] else []
  | (a, b) :: rest =>
    if code < a then (code, a - 1) :: complFrom (b + 1) rest else complFrom (b + 1) rest

def compl (a : CodeRanges) : CodeRanges :=
  complFrom 0 a

def inter (a b : CodeRanges) : CodeRanges :=
  compl (union (compl a) (compl b))

/-- Whether a code point is in one of the ranges. -/
def contains (a : CodeRanges) (code : Nat) : Bool :=
  a.any fun r => r.1 ≤ code && code ≤ r.2

/-- The code points from `code` on for which a test holds, `n` of them looked at, with those found
so far in reverse. -/
def scan (test : Char → Bool) : Nat → Nat → CodeRanges → CodeRanges
  | 0, _, found => found.reverse
  | n + 1, code, found =>
    if test (Char.ofNat code) && code.isValidChar then
      match found with
      | (a, b) :: rest =>
        if b + 1 = code then scan test n (code + 1) ((a, code) :: rest)
        else scan test n (code + 1) ((code, code) :: found)
      | [] => scan test n (code + 1) [(code, code)]
    else scan test n (code + 1) found

/-- With the letters that a folding adds. -/
def withVariants (variants : Char → List Char) (letters : List Char) (a : CodeRanges) :
    CodeRanges :=
  union a ((letters.filter fun c => a.contains c.toNat).flatMap fun c =>
    (variants c).map fun d => (d.toNat, d.toNat))

end CodeRanges

/-- The code points of a set. -/
def CharSet.codes : CharSet → CodeRanges
  | .ranges l => .ofList (l.map fun r => (r.1.toNat, r.2.toNat))
  | .database s => .scan s.has 0x110000 0 []
  | .union a b => a.codes.union b.codes
  | .inter a b => a.codes.inter b.codes
  | .diff a b => a.codes.inter b.codes.compl
  | .either a b => (a.codes.inter b.codes.compl).union (b.codes.inter a.codes.compl)
  | .compl a => a.codes.compl
  | .folded a =>
    a.codes.withVariants Text.caseVariants
      (Text.Case.folding ++ Text.Case.folding.map Text.foldChar)
  | .plainFolded a =>
    a.codes.withVariants (fun c => [c.toLower, c.toUpper])
      ((List.range 128).map fun i => Char.ofNat i)

/-! ## Room for sets -/

def stateRoom : Nat := 32

def transitionRoom : Nat := 8

def linkRoom : Nat := 4

/-- Ranges for the bytes of an encoding, one for each byte. -/
abbrev ByteRanges := List (Nat × Nat)

/-- The bytes of a code point that is encoded in `n` bytes. -/
def bytesOf (n code : Nat) : List Nat :=
  let tail (i : Nat) : Nat := 0x80 + code / Nat.pow 64 i % 64
  match n with
  | 1 => [code]
  | 2 => [0xc0 + code / 64, tail 0]
  | 3 => [0xe0 + code / 4096, tail 1, tail 0]
  | _ => [0xf0 + code / 262144, tail 2, tail 1, tail 0]

/-- The ranges of bytes that encode the code points from one to another. Code points encoded in
different numbers of bytes go apart, and so do those that share a byte with code points outside. -/
def byteRanges : Nat → Nat → Nat → List ByteRanges
  | 0, _, _ => []
  | fuel + 1, low, high =>
    let parts (last : Nat) : List ByteRanges :=
      byteRanges fuel low last ++ byteRanges fuel (last + 1) high
    if high < low then []
    else if low < 0xe000 ∧ 0xd7ff < high then
      byteRanges fuel low 0xd7ff ++ byteRanges fuel 0xe000 high
    else
      match [0x7f, 0x7ff, 0xffff].find? fun last => low ≤ last && last < high with
      | some last => parts last
      | none =>
        let uneven := [64, 4096, 262144].findSome? fun m =>
          if high ≤ 0x7f ∨ low / m = high / m then none
          else if low % m ≠ 0 then some (low / m * m + m - 1)
          else if high % m ≠ m - 1 then some (high / m * m - 1)
          else none
        match uneven with
        | some last => parts last
        | none =>
          let n := if high ≤ 0x7f then 1 else if high ≤ 0x7ff then 2 else if high ≤ 0xffff then 3
            else 4
          [(bytesOf n low).zip (bytesOf n high)]

/-- The ranges of bytes of all code points. -/
def CodeRanges.bytes (a : CodeRanges) : List ByteRanges :=
  a.flatMap fun r => byteRanges 64 r.1 r.2

/-- The ranges that follow each first range, where the same first ranges come together. -/
def byFirst (l : List ByteRanges) : List ((Nat × Nat) × List ByteRanges) :=
  (l.filter fun r => !r.isEmpty).splitBy (fun a b => a.head? == b.head?) |>.filterMap fun group =>
    group.head?.bind fun r => r.head?.map fun first => (first, group.map List.tail)

/-- The states that lead through ranges of bytes, given the states so far with their transitions.
A state with the same transitions as another one is the other one. -/
def shareStates : Nat → List ByteRanges → List (List (Nat × Nat × Nat)) →
    Nat × List (List (Nat × Nat × Nat))
  | 0, _, states => (0, states)
  | depth + 1, l, states =>
    if l.all List.isEmpty then (0, states)
    else
      let (transitions, states) := (byFirst l).foldl
        (fun (ts, states) (first, rest) =>
          let (target, states) := shareStates depth rest states
          (ts ++ [(first.1, first.2, target)], states))
        (([] : List (Nat × Nat × Nat)), states)
      match states.idxOf? transitions with
      | some i => (states.length - i, states)
      | none => (states.length + 1, transitions :: states)

/-- The number of ways through ranges of bytes that are apart from their start on. -/
def countPrefixes : Nat → List ByteRanges → Nat
  | 0, _ => 0
  | depth + 1, l => (byFirst l).foldl (fun n (_, rest) => n + 1 + countPrefixes depth rest) 0

/-- The room of a set of code points. A set of one is a row of bytes, and ASCII takes one state. -/
def CodeRanges.room (backwards : Bool) (a : CodeRanges) : Nat :=
  match a with
  | [(code, last)] =>
    if code = last then (Char.ofNat code).utf8Size * stateRoom else wide
  | _ => wide
where
  /-- The room of a set of more than one code point. -/
  wide : Nat :=
    if a.all fun r => r.2 ≤ 0x7f then 2 * stateRoom + a.length * transitionRoom
    else if backwards then
      2 * stateRoom + a.bytes.length * linkRoom + countPrefixes 4 a.bytes * stateRoom
    else
      (shareStates 5 a.bytes []).2.foldl
        (fun n ts => n + stateRoom + ts.length * transitionRoom) stateRoom

/-- More room than a set takes, counted without its code points. -/
def CharSet.roomBound : CharSet → Nat
  | .ranges l => 2000 * l.length + 2 * stateRoom
  | .database _ => 200000
  | .union a b | .inter a b | .diff a b | .either a b => a.roomBound + b.roomBound
  | .compl a => a.roomBound + 4000
  | .folded a => a.roomBound + 200000
  | .plainFolded a => a.roomBound + 4000

/-! ## Room for patterns -/

def branchCount : Pattern → Nat
  | .alt a b => branchCount a + branchCount b
  | _ => 1

/-- The room of a pattern whose sets take the room that `setRoom` says; the empty pattern counts
only where it stands alone. -/
def innerRoom (setRoom : CharSet → Nat) (groups : Bool) : Pattern → Nat
  | .empty => 0
  | .set s => setRoom s
  | .look _ => stateRoom
  | .seq a b => innerRoom setRoom groups a + innerRoom setRoom groups b
  | .alt a b =>
    let n := branchCount a + branchCount b
    2 * stateRoom + n * linkRoom + branchRoom a + branchRoom b
  | .rounds least most _ p =>
    let room := atLeastState (innerRoom setRoom groups p)
    let fork := stateRoom + 2 * linkRoom
    match most with
    | none =>
      if least = 0 then if p.takesSome then fork + room else room + 2 * fork + stateRoom
      else least * room + fork
    | some most =>
      if least = 0 ∧ most = 1 then fork + room + stateRoom
      else if least = most then least * room
      else
        atLeastState (least * room) + stateRoom + (most - least) * (fork + room)
  | .group _ p =>
    atLeastState (innerRoom setRoom groups p) + if groups then 2 * stateRoom else 0
where
  /-- A pattern takes at least one state. -/
  atLeastState (n : Nat) : Nat := max n stateRoom
  /-- The room of the branches of a choice. -/
  branchRoom : Pattern → Nat
    | .alt a b => branchRoom a + branchRoom b
    | p => atLeastState (innerRoom setRoom groups p)

/-- Whether every match starts at the start of the text, as far as the first part tells. -/
def startsAtStart : Pattern → Bool
  | .look .textStart => true
  | .seq a _ => a.startsAtStart
  | .alt a b => a.startsAtStart && b.startsAtStart
  | .rounds least _ _ p => least != 0 && p.startsAtStart
  | .group _ p => p.startsAtStart
  | _ => false

/-- Whether every match ends at the end of the text, as far as the last part tells. -/
def endsAtEnd : Pattern → Bool
  | .look .textEnd => true
  | .seq _ b => b.endsAtEnd
  | .alt a b => a.endsAtEnd && b.endsAtEnd
  | .rounds least _ _ p => least != 0 && p.endsAtEnd
  | .group _ p => p.endsAtEnd
  | _ => false

/-- The room of an automaton with its start and its end. It is entered at any place unless all
matches start where it is entered first. -/
def room (setRoom : CharSet → Nat) (backwards : Bool) (p : Pattern) : Nat :=
  let fixed := if backwards then p.endsAtEnd else p.startsAtStart
  let entry := if fixed then stateRoom else 3 * stateRoom + 2 * linkRoom + transitionRoom
  let whole := if backwards then 0 else 2 * stateRoom
  entry + whole + innerRoom.atLeastState (innerRoom setRoom (!backwards) p) + stateRoom

/-- The room that an automaton may take. -/
def roomLimit : Nat := 10 * 1048576

/-- Whether the automata of a pattern stay within the room. The code points of its sets are counted
only if bounds do not settle it. -/
def fits (p : Pattern) : Bool :=
  p.room CharSet.roomBound false ≤ roomLimit ||
    (p.room (fun s => s.codes.room false) false ≤ roomLimit &&
      p.room (fun s => s.codes.room true) true ≤ roomLimit)

end CodeGraph.Pattern
