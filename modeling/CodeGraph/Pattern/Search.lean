import CodeGraph.NameMap
import CodeGraph.Pattern.Basic

/-!
# Searching for a pattern

A pattern becomes a program of instructions that take a character, check the place, note a place or
go on elsewhere. A search runs all ways through the program side by side, one step for each
character, in the order of preference: of two ways that arrive at one instruction the later one is
dropped, and when a way succeeds those after it are dropped. The first place where some way starts
and succeeds wins, and of the ways that start there the one preferred most.

The work is bounded by the size of the program for each character.
-/

namespace CodeGraph.Pattern

/-- A step of a program. Without a target it goes on to the next instruction. -/
inductive Instruction where
  | take (s : CharSet)
  | check (l : Look)
  /-- Notes the place under a number. -/
  | note (slot : Nat)
  /-- Goes two ways, the first one preferred. -/
  | fork (first second : Nat)
  | jump (target : Nat)
  | succeed
  deriving Inhabited

/-- The number of instructions of a pattern. -/
def codeSize : Pattern → Nat
  | .empty => 0
  | .set _ => 1
  | .look _ => 1
  | .seq a b => a.codeSize + b.codeSize
  | .alt a b => a.codeSize + b.codeSize + 2
  | .rounds least most _ p =>
    match most with
    | some most => least * p.codeSize + (most - least) * (p.codeSize + 1)
    | none => if least = 0 then p.codeSize + 2 else least * p.codeSize + 1
  | .group name p => p.codeSize + (if name.isSome then 2 else 0)

/-- Two ways, the first one preferred if `greedy`. -/
def prefer (greedy : Bool) (on out : Nat) : Instruction :=
  if greedy then .fork on out else .fork out on

/-- Copies of a code one after the other. -/
def repeatCode (code : Nat → List Instruction) (size : Nat) : Nat → Nat → List Instruction
  | 0, _ => []
  | n + 1, start => code start ++ repeatCode code size n (start + size)

/-- Copies of a code that may each be left out together with those after it. -/
def optionalCode (code : Nat → List Instruction) (size : Nat) (greedy : Bool) (out : Nat) :
    Nat → Nat → List Instruction
  | 0, _ => []
  | n + 1, start =>
    prefer greedy (start + 1) out :: code (start + 1) ++
      optionalCode code size greedy out n (start + 1 + size)

/-- The code of a pattern from an address on, given the slots of the named groups. -/
def code (slots : List String) (p : Pattern) (start : Nat) : List Instruction :=
  match p with
  | .empty => []
  | .set s => [.take s]
  | .look l => [.check l]
  | .seq a b => code slots a start ++ code slots b (start + a.codeSize)
  | .alt a b =>
    let second := start + 1 + a.codeSize + 1
    .fork (start + 1) second :: code slots a (start + 1) ++
      .jump (second + b.codeSize) :: code slots b second
  | .rounds least most greedy p =>
    let size := p.codeSize
    match most with
    | some most =>
      let out := start + least * size + (most - least) * (size + 1)
      repeatCode (code slots p) size least start ++
        optionalCode (code slots p) size greedy out (most - least) (start + least * size)
    | none =>
      if least = 0 then
        let out := start + size + 2
        prefer greedy (start + 1) out :: code slots p (start + 1) ++
          [if p.takesSome then .jump start else prefer greedy (start + 1) out]
      else
        let last := start + (least - 1) * size
        repeatCode (code slots p) size least start ++ [prefer greedy last (last + size + 1)]
  | .group none p => code slots p start
  | .group (some name) p =>
    let slot := 2 * slots.idxOf name
    .note slot :: code slots p (start + 1) ++ [.note (slot + 1)]

def program (p : Pattern) : Array Instruction :=
  (code p.groupNames p 0 ++ [Instruction.succeed]).toArray

/-- A way through the program: where it is, and the places it has noted. -/
structure Way where
  address : Nat
  places : Array (Option Nat)
  deriving Inhabited

/-- Follows ways up to instructions that take a character or succeed; the result is in reverse
order. Each address is visited once, so `fuel` need not be more than twice the size of the program
and the number of ways. -/
def follow (prog : Array Instruction) (place : Nat) (before after : Option Char) :
    Nat → List Way → Array Bool → List Way → List Way
  | 0, _, _, found => found
  | _ + 1, [], _, found => found
  | fuel + 1, w :: ways, visited, found =>
    if visited.getD w.address true then follow prog place before after fuel ways visited found
    else
      let visited := visited.setIfInBounds w.address true
      let go := fun ways found => follow prog place before after fuel ways visited found
      match prog[w.address]? with
      | some (.jump a) => go ({ w with address := a } :: ways) found
      | some (.fork a b) => go ({ w with address := a } :: { w with address := b } :: ways) found
      | some (.note slot) =>
        go (⟨w.address + 1, w.places.setIfInBounds slot (some place)⟩ :: ways) found
      | some (.check l) =>
        if l.holds before after then go ({ w with address := w.address + 1 } :: ways) found
        else go ways found
      | some _ => go ways (w :: found)
      | none => go ways found

/-- The ways before the first one that succeeds, and the places of that one. -/
def untilSuccess (prog : Array Instruction) : List Way → List Way × Option (Array (Option Nat))
  | [] => ([], none)
  | w :: rest =>
    match prog[w.address]? with
    | some .succeed => ([], some w.places)
    | _ => let (ways, best) := untilSuccess prog rest; (w :: ways, best)

/-- The ways that take a character. -/
def advance (prog : Array Instruction) (c : Char) (ways : List Way) : List Way :=
  ways.filterMap fun w =>
    match prog[w.address]? with
    | some (Instruction.take s) =>
      if s.has c then some { w with address := w.address + 1 } else none
    | _ => none

/-- What ways lead to at one place: those that go on, and the places of the best success so far. As
long as nothing has succeeded a new way starts. -/
def settle (prog : Array Instruction) (slots place : Nat) (before after : Option Char)
    (best : Option (Array (Option Nat))) (ways : List Way) :
    List Way × Option (Array (Option Nat)) :=
  let started := ways ++ if best.isNone then [⟨0, Array.replicate slots none⟩] else []
  let fuel := 2 * prog.size + started.length + 1
  let found := follow prog place before after fuel started (Array.replicate prog.size false) []
  let (ways, success) := untilSuccess prog found.reverse
  (ways, success.or best)

/-- Goes through the rest of a text. -/
def run (prog : Array Instruction) (slots place : Nat) (before : Option Char)
    (best : Option (Array (Option Nat))) (ways : List Way) :
    List Char → Option (Array (Option Nat))
  | [] => (settle prog slots place before none best ways).2
  | c :: rest =>
    let (ways, best) := settle prog slots place before (some c) best ways
    run prog slots (place + 1) (some c) best (advance prog c ways) rest

/-- The texts of the named groups that take part in the first match. -/
def capture? (p : Pattern) (s : String) : Option (NameMap String) :=
  let text := s.toList
  let names := p.groupNames
  (run p.program (2 * names.length) 0 none none [] text).map fun places =>
    .ofList (names.zipIdx.filterMap fun (name, i) =>
      match places.getD (2 * i) none, places.getD (2 * i + 1) none with
      | some a, some b => some (name, String.ofList ((text.drop a).take (b - a)))
      | _, _ => none)

end CodeGraph.Pattern
