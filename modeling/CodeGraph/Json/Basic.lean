import CodeGraph.NameMap

/-!
# JSON values

A value as a document holds it. The members of an object keep the order in which they are written
and may repeat a name; `Json.canonical` is the form of a value that is compared and looked up in,
with the members in increasing order of name and the last of equal names kept.

A number is an integer of the range that documents carry or a double. The integer 1 and the double
1.0 are different values.
-/

namespace CodeGraph

/-- An integer between `-2 ^ 63` and `2 ^ 64 - 1`. -/
structure Integer where
  val : Int
  lower : -9223372036854775808 ≤ val
  upper : val < 18446744073709551616
  deriving DecidableEq

namespace Integer

instance : Repr Integer := ⟨fun i p => reprPrec i.val p⟩

/-- The integer, if it is in range. -/
def ofInt? (i : Int) : Option Integer :=
  if h : -9223372036854775808 ≤ i ∧ i < 18446744073709551616 then some ⟨i, h.1, h.2⟩ else none

/-- Every 64-bit word is in range. -/
def ofWord (n : UInt64) : Integer :=
  ⟨n.toNat, by have := n.toNat_lt; omega, by have := n.toNat_lt; omega⟩

/-- The integer as a 64-bit word, unless it is negative. -/
def toWord? (i : Integer) : Option UInt64 :=
  if 0 ≤ i.val then some (UInt64.ofNat i.val.toNat) else none

@[simp] theorem toWord?_ofWord (n : UInt64) : (ofWord n).toWord? = some n := by
  simp [toWord?, ofWord]

end Integer

/-- A number of a document. -/
inductive Number where
  | int (i : Integer)
  | double (x : Float)

/-- Two numbers are the same if they are of one kind and equal. -/
def Number.same : Number → Number → Bool
  | .int i, .int j => i == j
  | .double x, .double y => x == y
  | _, _ => false

/-- A JSON value. -/
inductive Json where
  | null
  | bool (b : Bool)
  | number (n : Number)
  | string (s : String)
  | array (items : List Json)
  | object (members : List (String × Json))

namespace Json

instance : Inhabited Json := ⟨.null⟩

/-- A 64-bit word as a value. -/
def ofWord (n : UInt64) : Json :=
  .number (.int (.ofWord n))

/-- A natural number below `2 ^ 64` as a value. -/
def ofNat (n : Nat) : Json :=
  .ofWord (UInt64.ofNat n)

/-- A double as a value. There is no text for a NaN or an infinity, so those are null. -/
def ofDouble (x : Float) : Json :=
  if x.isFinite then .number (.double x) else .null

/-- A list of strings as a value. -/
def ofStrings (l : List String) : Json :=
  .array (l.map .string)

def ofMap (m : NameMap Json) : Json :=
  .object m.entries

mutual

/-- Whether two values are equal, the members of objects taken in their order. -/
def same : Json → Json → Bool
  | .null, .null => true
  | .bool a, .bool b => a == b
  | .number a, .number b => a.same b
  | .string a, .string b => a == b
  | .array a, .array b => sameItems a b
  | .object a, .object b => sameMembers a b
  | _, _ => false

def sameItems : List Json → List Json → Bool
  | [], [] => true
  | a :: as, b :: bs => a.same b && sameItems as bs
  | _, _ => false

def sameMembers : List (String × Json) → List (String × Json) → Bool
  | [], [] => true
  | (k, a) :: as, (k', b) :: bs => k == k' && a.same b && sameMembers as bs
  | _, _ => false

end

mutual

/-- The members of every object in increasing order of name, the last of equal names kept. -/
def canonical : Json → Json
  | .array items => .array (canonicalItems items)
  | .object members => .object (canonicalMembers .empty members).entries
  | v => v

def canonicalItems : List Json → List Json
  | [] => []
  | v :: rest => v.canonical :: canonicalItems rest

/-- Adds the canonical forms of members to a map. -/
def canonicalMembers (m : NameMap Json) : List (String × Json) → NameMap Json
  | [] => m
  | (k, v) :: rest => canonicalMembers (m.insert k v.canonical) rest

end

/-- The last member of a name, in an object. -/
def member? (v : Json) (k : String) : Option Json :=
  match v with
  | .object members => members.reverse.lookup k
  | _ => none

end Json

end CodeGraph
