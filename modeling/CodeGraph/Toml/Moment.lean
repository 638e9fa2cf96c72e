/-!
# Dates and times

A moment is a date, a time of day, or both, with an offset from universal time if both are there.
`Moment.text` writes it; `Moment.ofText` reads a whole text and says what is misspelt in one that is
no moment, and `Moment.scan` reads a moment from the front of a text.
-/

namespace CodeGraph

/-- A day of the calendar. -/
structure Date where
  year : Nat
  month : Nat
  day : Nat
  deriving DecidableEq, Repr

/-- A time of day. -/
structure ClockTime where
  hour : Nat
  minute : Nat
  second : Nat
  nanosecond : Nat
  deriving DecidableEq, Repr

/-- A distance from universal time. -/
inductive Offset where
  | zulu
  | minutes (m : Int)
  deriving DecidableEq, Repr

/-- A date, a time, or both. -/
structure Moment where
  date : Option Date := none
  time : Option ClockTime := none
  offset : Option Offset := none
  deriving DecidableEq, Repr

namespace Moment

/-! ## Writing -/

/-- A number with zeros in front up to a width. -/
def padded (width n : Nat) : String :=
  let cs := Nat.toDigits 10 n
  String.ofList (List.replicate (width - cs.length) '0' ++ cs)

/-- The fraction of a second, without zeros at the end, and nothing for a whole second. -/
def fractionText (nanosecond : Nat) : String :=
  if nanosecond = 0 then ""
  else
    let cs := ((padded 9 nanosecond).toList.reverse.dropWhile (· == '0')).reverse
    "." ++ String.ofList cs

def dateText (d : Date) : String :=
  padded 4 d.year ++ "-" ++ padded 2 d.month ++ "-" ++ padded 2 d.day

/-- The text of a time of day. -/
def timeText (t : ClockTime) : String :=
  padded 2 t.hour ++ ":" ++ padded 2 t.minute ++ ":" ++ padded 2 t.second ++
    fractionText t.nanosecond

def offsetText : Offset → String
  | .zulu => "Z"
  | .minutes m =>
    (if m < 0 then "-" else "+") ++ padded 2 (m.natAbs / 60) ++ ":" ++ padded 2 (m.natAbs % 60)

/-- The text of a moment; `T` stands between date and time. -/
def text (m : Moment) : String :=
  (m.date.map dateText).getD "" ++
    (if m.date.isSome && m.time.isSome then "T" else "") ++
    (m.time.map timeText).getD "" ++
    (m.offset.map offsetText).getD ""

/-! ## Reading -/

/-- Why a text is no moment: the part that is misspelt and what it should have there. -/
structure Misspelling where
  part : String := "datetime"
  expected : Option String := none
  deriving DecidableEq, Repr

def Misspelling.message (m : Misspelling) : String :=
  "invalid " ++ m.part ++ (m.expected.map (", expected " ++ ·)).getD ""

/-- A sign or a run of digits of a moment. -/
inductive Sign where
  | digits (ds : List Char)
  | dash
  | colon
  | point
  | letterT
  | blank
  | letterZ
  | plus
  | other
  deriving DecidableEq, Repr

namespace Sign

/-- The sign of a character that is no digit. -/
def ofChar (c : Char) : Sign :=
  match c with
  | '-' => .dash
  | ':' => .colon
  | '.' => .point
  | 'T' | 't' => .letterT
  | ' ' => .blank
  | 'Z' | 'z' => .letterZ
  | '+' => .plus
  | _ => .other

def ofText (cs : List Char) : List Sign :=
  match cs with
  | [] => []
  | c :: rest =>
    if c.isDigit then
      .digits (c :: rest.takeWhile Char.isDigit) :: ofText (rest.dropWhile Char.isDigit)
    else ofChar c :: ofText rest
termination_by cs.length
decreasing_by
  · exact Nat.lt_succ_of_le (List.dropWhile_suffix _).sublist.length_le
  · simp

end Sign

/-- Readers of a part of a moment. -/
abbrev PartReader := StateT (List Sign) (Except Misspelling)

namespace PartReader

def digits (part expected : String) : PartReader (List Char) := do
  match ← get with
  | .digits ds :: rest => set rest; return ds
  | _ => throw { part, expected }

def sign (s : Sign) (part expected : String) : PartReader Unit := do
  match ← get with
  | t :: rest => if t = s then set rest else throw { part, expected }
  | [] => throw { part, expected }

/-- The number that digits of a width spell. -/
def number (width : Nat) (ds : List Char) (part expected : String) : PartReader Nat :=
  if ds.length = width then return ds.foldl (fun n c => n * 10 + (c.toNat - '0'.toNat)) 0
  else throw { part, expected }

def refuseIf (p : Bool) (part expected : String) : PartReader Unit :=
  if p then throw { part, expected } else return ()

end PartReader

open PartReader

/-- The last day of a month. -/
def lastDay (year month : Nat) : Nat :=
  if month = 2 then
    if year % 4 = 0 ∧ (year % 100 ≠ 0 ∨ year % 400 = 0) then 29 else 28
  else if month ∈ [4, 6, 9, 11] then 30
  else 31

/-- The rest of a date after the digits of the year and the sign that follows them. -/
def readDate (year : List Char) : PartReader Date := do
  let month ← digits "date" "month"
  sign .dash "date" "`-` (MM-DD)"
  let day ← digits "date" "day"
  let year ← number 4 year "date" "a four-digit year (YYYY)"
  let month ← number 2 month "date" "a two-digit month (MM)"
  let day ← number 2 day "date" "a two-digit day (DD)"
  refuseIf (month < 1 || 12 < month) "date" "month between 01 and 12"
  let last := lastDay year month
  refuseIf (day < 1 || last < day) "date" ("day between 01 and " ++ toString last)
  return ⟨year, month, day⟩

/-- Digits after the point as nanoseconds; what is finer is cut off. -/
def fraction (ds : List Char) : Nat :=
  ((ds ++ List.replicate 9 '0').take 9).foldl (fun n c => n * 10 + (c.toNat - '0'.toNat)) 0

/-- The fraction of a second, if there is one. -/
def readFraction : PartReader Nat := do
  match ← get with
  | .point :: rest =>
    set rest
    return fraction (← digits "time" "nanosecond")
  | _ => return 0

def readTime : PartReader ClockTime := do
  let hour ← digits "time" "hour"
  sign .colon "time" "`:` (HH:MM)"
  let minute ← digits "time" "minute"
  sign .colon "time" "`:` (MM:SS)"
  let second ← digits "time" "second"
  let nanosecond ← readFraction
  let hour ← number 2 hour "time" "a two-digit hour (HH)"
  let minute ← number 2 minute "time" "a two-digit minute (MM)"
  let second ← number 2 second "time" "a two-digit second (SS)"
  refuseIf (23 < hour) "time" "hour between 00 and 23"
  refuseIf (59 < minute) "time" "minute between 00 and 59"
  refuseIf (60 < second) "time" "second between 00 and 60"
  return ⟨hour, minute, second, nanosecond⟩

/-- A distance from universal time after its sign, in minutes. -/
def readDistance : PartReader Nat := do
  let hours ← digits "offset" "hour"
  sign .colon "offset" "`:` (HH:MM)"
  let minutes ← digits "offset" "minute"
  let hours ← number 2 hours "offset" "a two-digit hour (HH)"
  let minutes ← number 2 minutes "offset" "a two-digit minute (MM)"
  refuseIf (23 < hours) "offset" "hours between 00 and 23"
  refuseIf (59 < minutes) "offset" "minutes between 00 and 59"
  return hours * 60 + minutes

/-- The offset after a date and a time, if there is one. -/
def readOffset : PartReader (Option Offset) := do
  match ← get with
  | [] => return none
  | s :: rest =>
    set rest
    match s with
    | .letterZ => return some .zulu
    | .plus => return some (.minutes (← readDistance))
    | .dash => return some (.minutes (-((← readDistance : Nat) : Int)))
    | _ => throw { part := "offset", expected := some "`Z`, +OFFSET, -OFFSET" }

def readWhole : PartReader Moment := do
  let start ← get
  let first ← digits "datetime" "year or hour"
  let m : Moment ← match ← get with
    | .dash :: rest => do
      set rest
      let date ← readDate first
      match ← get with
      | [] => pure { date := some date }
      | s :: rest =>
        refuseIf (s ≠ .letterT ∧ s ≠ .blank) "date-time" "`T` between date and time"
        set rest
        let time ← readTime
        pure { date := some date, time := some time, offset := ← readOffset }
    | .colon :: _ => do
      set start
      pure { time := some (← readTime) }
    | _ => throw { expected := some "`-` (YYYY-MM) or `:` (HH:MM)" }
  if (← get).isEmpty then return m else throw {}

def ofText (s : String) : Except Misspelling Moment :=
  readWhole.run' (Sign.ofText s.toList)

/-- A moment at the front of a text. The blank between a date and a time is part of it if a digit
follows. -/
def scan (cs : List Char) : Option (Moment × List Char) :=
  let isPart (c : Char) : Bool := c.isDigit || Sign.ofChar c != .other && c != ' '
  let word := cs.takeWhile isPart
  let size := match cs.drop word.length with
    | ' ' :: d :: rest =>
      if d.isDigit then word.length + 1 + ((d :: rest).takeWhile isPart).length else word.length
    | _ => word.length
  match ofText (String.ofList (cs.take size)) with
  | .ok m => some (m, cs.drop size)
  | .error _ => none

end Moment

end CodeGraph
