import CodeGraph.Sha256

/-!
# Cache keys

What is derived from a file is kept under the path of the file and the digest of its content, so a
changed file never meets what was derived from it before the change.
-/

namespace CodeGraph.Cache

/-- What stands between path and digest. -/
def keySeparator : String := "::"

/-- The key of a path and a digest. -/
def key (path contentHash : String) : String :=
  path ++ keySeparator ++ contentHash

/-- The digest of a file's content. -/
def contentHash (content : ByteArray) : String :=
  Sha256.hex content.toList

/-- The key of a file with a content. -/
def keyOfContent (path : String) (content : ByteArray) : String :=
  key path (contentHash content)

/-- The digest that addresses a key on disk. -/
def keyDigest (key : String) : String :=
  Sha256.hexOfString key

end CodeGraph.Cache
