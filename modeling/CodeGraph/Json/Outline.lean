import CodeGraph.Json.Basic
import CodeGraph.Json.Break
import CodeGraph.Text.Glyph
import CodeGraph.Text.Basic

/-!
# Reading JSON text

The outline of a text is the value it spells, up to the first place where it stops being JSON. A
reader of a typed value walks an outline in the order of the text, so of a wrong value and a break
in the text it meets the earlier one first, and what it leaves unread cannot fail it.

A value may also be well formed and none: a number beyond the doubles, or a string with half of a
surrogate pair. Such a value is `unreadable`, and a reader that skips it goes on.
-/

namespace CodeGraph.Json

open CodeGraph.Text

mutual

/-- A value, up to the first break. -/
inductive Outline where
  | null
  | bool (b : Bool)
  | number (n : Number)
  | string (s : String)
  /-- A date or a time, as settings files have them. -/
  | moment (s : String)
  | unreadable (f : Flaw)
  | array (items : Elements)
  | object (members : Members)
  | broken (f : Fault)

/-- The items of an array, up to the first break. -/
inductive Elements where
  | done
  | cons (v : Outline) (rest : Elements)
  /-- No further item, and no end of the array; `comma` tells whether a comma was read. -/
  | broken (comma : Bool) (f : Fault)

/-- The members of an object, up to the first break. -/
inductive Members where
  | done
  /-- A name may be unreadable. -/
  | cons (name : Except Flaw String) (v : Outline) (rest : Members)
  /-- Another value in place of the first name. -/
  | misplaced (v : Outline)
  /-- No further member, and no end of the object; `comma` tells whether a comma was read. -/
  | broken (comma : Bool) (f : Fault)

end

instance : Inhabited Outline := ⟨.null⟩

/-- The glyphs after blanks and line breaks. -/
def skipBlank : List Glyph → List Glyph
  | .char c :: rest =>
    if c = ' ' ∨ c = '\n' ∨ c = '\t' ∨ c = '\r' then skipBlank rest else .char c :: rest
  | gs => gs

/-! ## Words -/

/-- The rest of a word whose first character has been read. -/
def word (v : Outline) : List Char → List Glyph → Outline × List Glyph
  | [], rest => (v, rest)
  | _ :: _, [] =>
    (.broken ⟨.truncated .value, .truncated .value, .malformed .noValue⟩, [])
  | c :: cs, g :: rest =>
    if g = .char c then word v cs rest else (.broken (.unnamed .noConstant), [])

/-! ## Strings -/

/-- A part of a string: a character, the code unit of an escape, or a byte of no character. -/
inductive Piece where
  | char (c : Char)
  | unit (n : Nat)
  | stray
  deriving DecidableEq, Repr

/-- Where a string ends. -/
inductive Ending where
  | closed (rest : List Glyph)
  | broken (b : Break)

/-- The value of a hexadecimal digit. -/
def hexValue? : Glyph → Option Nat
  | .char c => Text.hexValue? c
  | .stray _ => none

/-- The value of four hexadecimal digits. -/
def hexUnit? (a b c d : Glyph) : Option Nat := do
  return (((← hexValue? a) * 16 + (← hexValue? b)) * 16 + (← hexValue? c)) * 16 + (← hexValue? d)

/-- The character that a one-letter escape stands for. -/
def unescape? : Char → Option Char
  | '"' => some '"'
  | '\\' => some '\\'
  | '/' => some '/'
  | 'b' => some '\x08'
  | 'f' => some '\x0c'
  | 'n' => some '\n'
  | 'r' => some '\r'
  | 't' => some '\t'
  | _ => none

def Piece.andThen (p : Piece) (r : List Piece × Ending) : List Piece × Ending :=
  (p :: r.1, r.2)

/-- The pieces of a string after its opening quote. -/
def pieces : List Glyph → List Piece × Ending
  | [] => ([], .broken (.truncated .string))
  | .stray _ :: rest => Piece.stray.andThen (pieces rest)
  | .char '"' :: rest => ([], .closed rest)
  | .char '\\' :: .char 'u' :: a :: b :: c :: d :: rest =>
    match hexUnit? a b c d with
    | some n => (Piece.unit n).andThen (pieces rest)
    | none => ([], .broken (.malformed .badDigits))
  | .char '\\' :: .char 'u' :: rest =>
    ([], .broken (if (rest.map Glyph.byteSize).foldr (· + ·) 0 < 4 then .truncated .string
      else .malformed .badDigits))
  | .char '\\' :: .char e :: rest =>
    match unescape? e with
    | some c => (Piece.char c).andThen (pieces rest)
    | none => ([], .broken (.malformed .badEscape))
  | .char '\\' :: .stray _ :: _ => ([], .broken (.malformed .badEscape))
  | [.char '\\'] => ([], .broken (.truncated .string))
  | .char c :: rest =>
    if c.toNat < 0x20 then ([], .broken (.malformed .controlCharacter))
    else (Piece.char c).andThen (pieces rest)

/-- The character of a surrogate pair. -/
def pair (high low : Nat) : Char :=
  Char.ofNat ((high - 0xD800) * 0x400 + (low - 0xDC00) + 0x10000)

/-- What a reader meets behind the first half of a surrogate pair, given the break there. -/
def Break.inPair : Break → Break
  | .malformed .badDigits => .malformed .badDigits
  | .malformed _ => .malformed .openPair
  | b => b

/-- The characters of pieces, and whether there is one for each. The last piece may be the first
half of a surrogate pair, and then `atEnd` says what follows it; a stray byte gives no
character. -/
def characters (atEnd : Break) : List Piece → Except Break (List Char × Bool)
  | [] => .ok ([], true)
  | .char c :: rest => (characters atEnd rest).map fun (cs, ok) => (c :: cs, ok)
  | .stray :: rest => (characters atEnd rest).map fun (cs, _) => (cs, false)
  | .unit n :: rest =>
    if n < 0xD800 ∨ 0xE000 ≤ n then
      (characters atEnd rest).map fun (cs, ok) => (Char.ofNat n :: cs, ok)
    else if 0xDC00 ≤ n then .error (.malformed .halfPair)
    else
      match rest with
      | .unit m :: rest =>
        if 0xDC00 ≤ m ∧ m < 0xE000 then
          (characters atEnd rest).map fun (cs, ok) => (pair n m :: cs, ok)
        else .error (.malformed .halfPair)
      | [] => .error atEnd.inPair
      | _ => .error (.malformed .openPair)

/-- A string after its opening quote: its value if it has one, and what follows it. -/
def quoted (gs : List Glyph) : Except Fault (Except Flaw String × List Glyph) :=
  match pieces gs with
  | (ps, .closed rest) =>
    match characters (.malformed .openPair) ps with
    | .ok (cs, true) => .ok (.ok (String.ofList cs), rest)
    | .error (.malformed f) => .ok (.error f, rest)
    | _ => .ok (.error .badCharacter, rest)
  | (ps, .broken b) =>
    match characters b ps with
    | .ok _ => .error (.all b)
    | .error b' => .error ⟨b', b, b'⟩

/-! ## Numbers -/

/-- The value of a decimal digit. -/
def digitValue? : Glyph → Option Nat
  | .char c => if '0' ≤ c ∧ c ≤ '9' then some (c.toNat - '0'.toNat) else none
  | .stray _ => none

/-- The decimal digits at the front. -/
def digits : List Glyph → List Nat × List Glyph
  | [] => ([], [])
  | g :: rest =>
    match digitValue? g with
    | some d => (d :: (digits rest).1, (digits rest).2)
    | none => ([], g :: rest)

/-- A number as it is written. -/
structure Numeral where
  negative : Bool
  whole : List Nat
  /-- The digits after the point, if there is one. -/
  fraction : Option (List Nat)
  /-- The sign and the digits of the exponent, if there is one. -/
  exponent : Option (Bool × List Nat)

namespace Numeral

/-- Adds decimal digits to a significand as long as it stays below `2 ^ 64`, and counts them. -/
def accumulate (significand : Nat) : List Nat → Nat × Nat
  | [] => (significand, 0)
  | d :: rest =>
    if significand * 10 + d < UInt64.size then
      let (s, n) := accumulate (significand * 10 + d) rest
      (s, n + 1)
    else (significand, 0)

/-- The power of ten `10 ^ n` as a double. -/
def power (n : Nat) : Float :=
  Float.ofScientific 1 false n

/-- A significand scaled by a power of ten in double arithmetic, unless it is too large. -/
def scale : Nat → Float → Int → Option Float
  | 0, x, _ => some x
  | fuel + 1, x, e =>
    if e.natAbs ≤ 308 then
      if 0 ≤ e then
        let y := x * power e.natAbs
        if y.isInf then none else some y
      else some (x / power e.natAbs)
    else if x == 0.0 then some x
    else if 0 ≤ e then none
    else scale fuel (x / power 308) (e + 308)

/-- The natural number that digits spell. -/
def value (ds : List Nat) : Nat :=
  ds.foldl (fun n d => n * 10 + d) 0

/-- The double of a numeral: the digits that fit 64 bits, scaled. -/
def double? (n : Numeral) : Option Float :=
  let (s, kept) := accumulate 0 n.whole
  let (s, places) := accumulate s (n.fraction.getD [])
  let shift : Int := (n.whole.length - kept : Nat) - (places : Int)
  let size : Option Float :=
    match n.exponent with
    | none => scale 5 s.toUInt64.toFloat shift
    | some (down, ds) =>
      let e : Int := value ds
      if e ≤ 2147483647 then scale 5 s.toUInt64.toFloat (if down then shift - e else shift + e)
      else if s ≠ 0 ∧ !down then none
      else some 0.0
  size.map fun x => if n.negative then -x else x

/-- The number of a numeral, if there is one: an integer where it is written as one and in range,
and otherwise a double. The integer zero has no sign, so `-0` is a double. -/
def number? (n : Numeral) : Option Number :=
  match n.fraction, n.exponent with
  | none, none =>
    let v : Int := value n.whole
    if n.negative ∧ v = 0 then some (.double (-0.0))
    else
      match Integer.ofInt? (if n.negative then -v else v) with
      | some i => some (.int i)
      | none => n.double?.map .double
  | _, _ => n.double?.map .double

end Numeral

/-- Where digits are missing: a reader needs more text, and one that skips does not look. -/
private def noDigits : List Glyph → Fault
  | [] => ⟨.truncated .value, .malformed .badNumber, .malformed .noValue⟩
  | _ => .unnamed .badNumber

/-- The exponent of a number, if there is one. -/
def exponent : List Glyph → Except Fault (Option (Bool × List Nat) × List Glyph)
  | .char c :: rest =>
    if c = 'e' ∨ c = 'E' then
      let (down, rest) := match rest with
        | .char '+' :: rest => (false, rest)
        | .char '-' :: rest => (true, rest)
        | rest => (false, rest)
      match digits rest with
      | ([], rest) => .error (noDigits rest)
      | (ds, rest) => .ok (some (down, ds), rest)
    else .ok (none, .char c :: rest)
  | gs => .ok (none, gs)

def numeral (negative : Bool) (gs : List Glyph) : Except Fault (Numeral × List Glyph) := do
  let (whole, rest) := digits gs
  if whole = [] then throw (noDigits rest)
  if whole.head? = some 0 ∧ whole.length ≠ 1 then throw (.unnamed .badNumber)
  match rest with
  | .char '.' :: rest =>
    let (fraction, rest) := digits rest
    if fraction = [] then throw (noDigits rest)
    let (e, rest) ← exponent rest
    return (⟨negative, whole, some fraction, e⟩, rest)
  | rest =>
    let (e, rest) ← exponent rest
    return (⟨negative, whole, none, e⟩, rest)

/-- The outline of a number after its sign. -/
def numberOutline (negative : Bool) (gs : List Glyph) : Outline × List Glyph :=
  match numeral negative gs with
  | .error f => (.broken f, [])
  | .ok (n, rest) =>
    match n.number? with
    | some v => (.number v, rest)
    | none => (.unreadable .numberTooLarge, rest)

/-! ## Values -/

/-- Puts the first item in front of the others. -/
private def consItem (v : Outline) (r : Elements × List Glyph) : Elements × List Glyph :=
  (.cons v r.1, r.2)

/-- Puts the first member in front of the others. -/
private def consMember (k : Except Flaw String) (v : Outline) (r : Members × List Glyph) :
    Members × List Glyph :=
  (.cons k v r.1, r.2)

mutual

/-- The outline of the value at the front, and what follows it. -/
def value (fuel : Nat) (gs : List Glyph) : Outline × List Glyph :=
  match fuel with
  | 0 => (.broken (.all (.truncated .value)), [])
  | fuel + 1 =>
    match skipBlank gs with
    | [] => (.broken (.all (.truncated .value)), [])
    | .stray _ :: _ => (.broken (.flaw .noValue), [])
    | .char c :: rest =>
      if c = '"' then
        match quoted rest with
        | .ok (.ok s, rest) => (.string s, rest)
        | .ok (.error f, rest) => (.unreadable f, rest)
        | .error f => (.broken f, [])
      else if c = '[' then
        let (items, rest) := elements fuel true rest
        (.array items, rest)
      else if c = '\x7b' then
        let (ms, rest) := members fuel true rest
        (.object ms, rest)
      else if c = 'n' then word .null ['u', 'l', 'l'] rest
      else if c = 't' then word (.bool true) ['r', 'u', 'e'] rest
      else if c = 'f' then word (.bool false) ['a', 'l', 's', 'e'] rest
      else if c = '-' then numberOutline true rest
      else if '0' ≤ c ∧ c ≤ '9' then numberOutline false (.char c :: rest)
      else (.broken (.flaw .noValue), [])

/-- The items of an array; `first` before the first of them. -/
def elements (fuel : Nat) (first : Bool) (gs : List Glyph) : Elements × List Glyph :=
  match fuel with
  | 0 => (.broken false (.all (.truncated .array)), [])
  | fuel + 1 =>
    match skipBlank gs with
    | [] => (.broken false (.all (.truncated .array)), [])
    | .char ']' :: rest => (.done, rest)
    | g :: rest =>
      if first then
        let (v, rest) := value fuel (g :: rest)
        consItem v (elements fuel false rest)
      else if g = .char ',' then
        match skipBlank rest with
        | [] => (.broken true (.all (.truncated .value)), [])
        | .char ']' :: _ =>
          (.broken true ⟨.malformed .commaAtEnd, .malformed .noValue, .malformed .commaAtEnd⟩, [])
        | rest =>
          let (v, rest) := value fuel rest
          consItem v (elements fuel false rest)
      else (.broken false (.flaw .noCommaInArray), [])

/-- The members of an object; `first` before the first of them. -/
def members (fuel : Nat) (first : Bool) (gs : List Glyph) : Members × List Glyph :=
  match fuel with
  | 0 => (.broken false (.all (.truncated .object)), [])
  | fuel + 1 =>
    match skipBlank gs with
    | [] =>
      (.broken false ⟨.truncated .object, .truncated .object, .truncated .value⟩, [])
    | .char '\x7d' :: rest => (.done, rest)
    | g :: rest =>
      if first then
        if g = .char '"' then member fuel false rest
        else (.misplaced (value fuel (g :: rest)).1, [])
      else if g = .char ',' then
        match skipBlank rest with
        | [] =>
          (.broken true ⟨.truncated .value, .truncated .object, .truncated .value⟩, [])
        | .char '"' :: rest => member fuel true rest
        | .char '\x7d' :: _ =>
          (.broken true ⟨.malformed .commaAtEnd, .malformed .noName, .malformed .commaAtEnd⟩, [])
        | _ => (.broken true (.flaw .noName), [])
      else (.broken false (.flaw .noCommaInObject), [])

/-- A member after the opening quote of its name, and the members after it. -/
def member (fuel : Nat) (comma : Bool) (gs : List Glyph) : Members × List Glyph :=
  match fuel with
  | 0 => (.broken comma (.all (.truncated .object)), [])
  | fuel + 1 =>
    match quoted gs with
    | .error f => (.broken comma f, [])
    | .ok (name, rest) =>
      match skipBlank rest with
      | [] => (.cons name (.broken (.all (.truncated .object))) .done, [])
      | .char ':' :: rest =>
        let (v, rest) := value fuel rest
        consMember name v (members fuel false rest)
      | _ => (.cons name (.broken (.flaw .noColon)) .done, [])

end

/-- The outline of a text and whether something other than blanks follows the value. -/
def outline (gs : List Glyph) : Outline × Bool :=
  let (v, rest) := value (3 * gs.length + 3) gs
  (v, !(skipBlank rest).isEmpty)

mutual

/-- The outline of a value that is already there. -/
def toOutline : Json → Outline
  | .null => .null
  | .bool b => .bool b
  | .number n => .number n
  | .string s => .string s
  | .array items => .array (toElements items)
  | .object ms => .object (toMembers ms)

def toElements : List Json → Elements
  | [] => .done
  | v :: rest => .cons v.toOutline (toElements rest)

def toMembers : List (String × Json) → Members
  | [] => .done
  | (k, v) :: rest => .cons (.ok k) v.toOutline (toMembers rest)

end

end CodeGraph.Json
