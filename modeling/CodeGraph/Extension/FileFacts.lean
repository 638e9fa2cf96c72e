import CodeGraph.Cache.Key
import CodeGraph.Cache.Layered
import CodeGraph.Volume.Path

/-!
# Facts about files

What the contents of a file tell: its size, its lines, the language that its name stands for and
the digest. Facts are a function of the path and the contents, so they may be kept in a cache under
a key made of both.
-/

namespace CodeGraph

/-- What the contents of a file tell. -/
structure FileFacts where
  size : UInt64
  lines : UInt64
  language : Option String
  contentHash : String
  deriving DecidableEq, Repr, Inhabited

namespace FileFacts

/-- The languages with the extensions of their files. -/
def languages : List (String × List String) := [
  ("rust", ["rs"]),
  ("python", ["py", "pyi"]),
  ("javascript", ["js", "mjs", "cjs", "jsx"]),
  ("typescript", ["ts", "tsx", "mts", "cts"]),
  ("go", ["go"]),
  ("java", ["java"]),
  ("kotlin", ["kt", "kts"]),
  ("c", ["c", "h"]),
  ("cpp", ["cc", "cpp", "cxx", "hpp", "hh"]),
  ("csharp", ["cs"]),
  ("ruby", ["rb"]),
  ("php", ["php"]),
  ("swift", ["swift"]),
  ("markdown", ["md", "markdown"]),
  ("toml", ["toml"]),
  ("json", ["json"]),
  ("yaml", ["yaml", "yml"]),
  ("shell", ["sh", "bash"])]

/-- The language of a file of this path, if its extension is known. -/
def language? (path : String) : Option String :=
  (Path.fileExtension? path).bind fun ext =>
    (languages.find? fun l => l.2.contains ext).map (·.1)

/-- The number of lines; what follows the last line feed is a line if it is not empty. -/
def lineCount (content : List UInt8) : Nat :=
  content.count 10 + (if content.getLast?.all (· == 10) then 0 else 1)

def derive (path : String) (content : ByteArray) : FileFacts where
  size := UInt64.ofNat content.size
  lines := UInt64.ofNat (lineCount content.toList)
  language := language? path
  contentHash := Cache.contentHash content

def toJson (f : FileFacts) : Json :=
  .object [("size", .ofWord f.size), ("lines", .ofWord f.lines),
    ("language", (f.language.map Json.string).getD .null), ("content_hash", .string f.contentHash)]

def record : Json.Record FileFacts where
  name := "FileFacts"
  start := default
  fields := [
    .needed "size" Json.readWord fun x f => { f with size := x },
    .needed "lines" Json.readSize fun x f => { f with lines := x },
    .defaulted "language" (Json.readOptional Json.readString) fun x f => { f with language := x },
    .needed "content_hash" Json.readString fun x f => { f with contentHash := x }]

instance : Json.Form FileFacts := ⟨toJson, record.read⟩

end FileFacts

end CodeGraph
