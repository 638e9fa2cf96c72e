import CodeGraph.Glob.Lookup
import CodeGraph.Glob.Reader
import CodeGraph.Text.Basic
import CodeGraph.Volume.Basic

/-!
# Ignore rules

A line of an ignore file is a rule: a glob, whether what it matches is ignored or kept, and whether
it is about directories only. Of the rules of a file the last one that applies decides.

The globs of a file are about paths from the directory of the file on.
-/

namespace CodeGraph.Ignore

/-- What a rule says about a path. -/
inductive Verdict where
  | ignore
  | keep
  deriving DecidableEq, Repr

/-- A rule. -/
structure Rule where
  glob : Glob
  verdict : Verdict
  onlyDirectories : Bool
  deriving Repr

namespace Rule

/-- Whether a rule is about a path. -/
def applies (r : Rule) (path : String) (isDirectory : Bool) : Bool :=
  (isDirectory || !r.onlyDirectories) && r.glob.isMatch path

/-- How the globs of rules are read. -/
def dialect : Glob.Dialect := { bySegment := true, openSets := true }

/-- The text of the glob of a rule. Without a slash inside it a rule is about names at any depth,
and a rule that ends in a slash and two stars is not about the directory itself. -/
def globText (anchored : Bool) (cs : List Char) : List Char :=
  let anyDepth := !anchored && !cs.contains '/' && cs != ['*', '*']
  let cs := if anyDepth then '*' :: '*' :: '/' :: cs else cs
  if ['/', '*', '*'].isSuffixOf cs then cs ++ ['/', '*'] else cs

def dropLast? (c : Char) (cs : List Char) : Option (List Char) :=
  if cs.getLast? = some c then some cs.dropLast else none

/-- A rule from what follows the mark of its verdict. A slash at the end restricts the rule to
directories; a backslash in front of that slash goes with it. -/
def ofBody? (verdict : Verdict) (anchored : Bool) (cs : List Char) : Option Rule :=
  let named := dropLast? '/' cs
  let body := named.elim cs fun cs => (dropLast? '\\' cs).getD cs
  (Glob.ofText? dialect (String.ofList (globText anchored body))).map fun glob =>
    { glob, verdict, onlyDirectories := named.isSome }

/-- Blanks at the end of a line do not count, unless the last one is a space after a backslash. -/
def trimEnd (cs : List Char) : List Char :=
  if ['\\', ' '].isSuffixOf cs then cs
  else (cs.reverse.dropWhile Text.isBlank).reverse

/-- A rule from a line, if it holds one. A backslash takes the meaning from a mark at the
start. -/
def ofLine? (cs : List Char) : Option Rule :=
  match trimEnd cs with
  | [] => none
  | '#' :: _ => none
  | '\\' :: '!' :: rest => ofBody? .ignore false ('!' :: rest)
  | '\\' :: '#' :: rest => ofBody? .ignore false ('#' :: rest)
  | '!' :: '/' :: rest => ofBody? .keep true rest
  | '!' :: rest => ofBody? .keep false rest
  | '/' :: rest => ofBody? .ignore true rest
  | cs => ofBody? .ignore false cs

end Rule

/-! ## Files of rules -/

/-- Splits bytes after each line feed. -/
def splitLines : List UInt8 → List (List UInt8)
  | [] => []
  | b :: rest =>
    if b = 10 then [b] :: splitLines rest
    else
      match splitLines rest with
      | [] => [[b]]
      | l :: ls => (b :: l) :: ls

/-- The characters of a line without its end, if they are text. -/
def lineText? (bytes : List UInt8) : Option (List Char) :=
  (String.fromUTF8? ⟨bytes.toArray⟩).map fun s =>
    match s.toList.reverse with
    | '\n' :: '\r' :: rest => rest.reverse
    | '\n' :: rest => rest.reverse
    | cs => cs.reverse

/-- The lines up to the first one that is not text. -/
def linesOf : List (List UInt8) → List (List Char)
  | [] => []
  | l :: rest =>
    match lineText? l with
    | some cs => cs :: linesOf rest
    | none => []

/-- The rules in the lines of a file. A byte order mark at the start does not count, and lines that
hold no rule are left out. -/
def rulesOfLines : List (List Char) → List Rule
  | [] => []
  | first :: rest => (first.dropWhile (· == '\ufeff') :: rest).filterMap Rule.ofLine?

/-- The rules of a file; none count if their globs cannot be used together. -/
def rulesOf (content : ByteArray) : List Rule :=
  let rules := rulesOfLines (linesOf (splitLines content.toList))
  if (Glob.fault? (rules.map (·.glob))).isSome then [] else rules

/-- Rules and the path of their directory. -/
structure RuleSet where
  directory : String
  rules : List Rule := []
  deriving Repr

/-- What is left of a path after a text at its start. -/
def after? (start path : String) : Option String :=
  let cs := start.toList
  if cs.isPrefixOf path.toList then some (String.ofList (path.toList.drop cs.length)) else none

/-- A path without a dot and a slash at its start. -/
def withoutDot (path : String) : String :=
  (after? "./" path).getD path

namespace RuleSet

/-- The rules of the file at a path; a file that cannot be read has none. -/
def ofFile (v : Volume) (directory path : String) : RuleSet where
  directory := withoutDot directory
  rules :=
    match v.readFile path with
    | .ok content => rulesOf content
    | .error _ => []

/-- The path from the directory of the rules on. A mere name is already one. -/
def localPath (s : RuleSet) (path : String) : String :=
  let path := withoutDot path
  if Path.parts s.directory = ["."] ∨ !path.toList.contains '/' then path
  else
    match after? s.directory path with
    | some below => (after? "/" below).getD below
    | none => path

/-- What the last rule about a path says. -/
def verdict? (s : RuleSet) (path : String) (isDirectory : Bool) : Option Verdict :=
  if s.rules.isEmpty then none
  else
    let path := s.localPath path
    (s.rules.reverse.find? fun r => r.applies path isDirectory).map (·.verdict)

end RuleSet

end CodeGraph.Ignore
