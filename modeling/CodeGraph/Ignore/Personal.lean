import CodeGraph.Ignore.Rule

/-!
# The rules of a person

A person may have an ignore file of their own, whose rules are about paths from where the program
runs on and count after all others. A configuration file of version control may name it with a line
`excludesfile = path`: the one in the home directory goes before the one in the directory for
configuration, and without such a line it is the file `git/ignore` in the latter.

The line is looked for without regard to what is around it. The path may stand in quotes and is a
run of bytes without blanks; blanks may include line feeds. A tilde anywhere in it stands for the
home directory.
-/

namespace CodeGraph.Ignore

/-- Whose rules count. -/
structure Person where
  /-- The home directory. -/
  home : Option String := none
  /-- The directory for configuration, unless it is that in the home directory. -/
  configHome : Option String := none

/-! ## The line that names the file -/

/-- Whether a byte is a blank. -/
def isBlankByte (b : UInt8) : Bool :=
  b == 32 || (9 ≤ b && b ≤ 13)

/-- The bytes after the blanks at the front. -/
def afterBlanks (bs : List UInt8) : List UInt8 :=
  bs.dropWhile isBlankByte

/-- Whether there are only blanks up to the end of a line. -/
def endsLine (bs : List UInt8) : Bool :=
  (bs.takeWhile isBlankByte).contains 10 || (afterBlanks bs).isEmpty

def quoteByte : UInt8 := 34

/-- The path at the front, if the line ends after it or after a quote behind it. A quote at the end
of the path belongs to the line where it can. -/
def namedPath? (bs : List UInt8) : Option (List UInt8) :=
  let path := bs.takeWhile fun b => !isBlankByte b
  let rest := bs.drop path.length
  if path.isEmpty then none
  else if path.getLast? = some quoteByte ∧ 1 < path.length ∧ endsLine rest then some path.dropLast
  else if endsLine rest then some path
  else
    match afterBlanks rest with
    | b :: rest => if b = quoteByte ∧ endsLine rest then some path else none
    | [] => none

/-- What is left after a word in lower case, whatever the case it is written in. -/
def afterWord? : List UInt8 → List UInt8 → Option (List UInt8)
  | [], bs => some bs
  | w :: word, b :: bs =>
    let lower := if 65 ≤ b && b ≤ 90 then b + 32 else b
    if lower = w then afterWord? word bs else none
  | _ :: _, [] => none

/-- The path that the line at the front names. -/
def lineValue? (bs : List UInt8) : Option (List UInt8) := do
  let bs ← afterWord? "excludesfile".toUTF8.toList (afterBlanks bs)
  match afterBlanks bs with
  | 61 :: bs =>
    match afterBlanks bs with
    | 34 :: inner => (namedPath? (afterBlanks inner)).or (namedPath? (34 :: inner))
    | bs => namedPath? bs
  | _ => none

/-- The path that the first line names that names one. A line starts here if `atStart` says so. -/
def firstValue? (atStart : Bool) : List UInt8 → Option (List UInt8)
  | [] => none
  | b :: bs => ((if atStart then lineValue? (b :: bs) else none)).or (firstValue? (b == 10) bs)

/-! ## The file -/

/-- A path with the home directory in the place of every tilde. -/
def expandTilde (p : Person) (path : String) : String :=
  match p.home with
  | some home => home.intercalate (path.splitOn "~")
  | none => path

/-- The ignore file that a configuration file names. -/
def configured? (v : Volume) (p : Person) (path : String) : Option String :=
  match v.readFile path with
  | .ok content =>
    ((firstValue? true content.toList).bind fun bs => String.fromUTF8? ⟨bs.toArray⟩).map
      (expandTilde p)
  | .error _ => none

def Person.configDirectory? (p : Person) : Option String :=
  (p.configHome.filter (· ≠ "")).or (p.home.map fun h => Path.join h ".config")

/-- The path of a person's ignore file. -/
def Person.ignoreFile? (v : Volume) (p : Person) : Option String :=
  ((p.home.bind fun h => configured? v p (Path.join h ".gitconfig")).or
    (p.configDirectory?.bind fun d => configured? v p (Path.join d "git/config"))).or
    (p.configDirectory?.map fun d => Path.join d "git/ignore")

/-- The rules of a person, about paths from where the program runs on. -/
def Person.rules (v : Volume) (p : Person) : RuleSet :=
  let directory := Path.ofParts true v.current
  match p.ignoreFile? v with
  | some path => .ofFile v directory path
  | none => { directory }

end CodeGraph.Ignore
