import CodeGraph.Json.Decode

/-!
# Settings of the caches

The bounds of the memory layer, the directory and the budget of the disk layer, and how many writes
may wait for the disk. Every setting has a default.

Sizes in bytes and times in milliseconds are 64-bit words. A sum of two of them that is not a word
any more does not go round to zero: there is no such sum, and what needed it breaks off.
-/

namespace CodeGraph.Cache

/-! ## Amounts -/

namespace Amount

/-- The sum of two amounts, if it is a 64-bit word. -/
def sum? (a b : UInt64) : Option UInt64 :=
  if a.toNat + b.toNat < UInt64.size then some (a + b) else none

theorem sum?_eq_some_iff {a b c : UInt64} :
    sum? a b = some c ↔ c.toNat = a.toNat + b.toNat := by
  have hc := c.toNat_lt
  have hsize : UInt64.size = 2 ^ 64 := rfl
  simp only [sum?, Option.ite_none_right_eq_some, Option.some.injEq]
  constructor
  · rintro ⟨h, rfl⟩
    rw [UInt64.toNat_add, Nat.mod_eq_of_lt h]
  · intro h
    refine ⟨by omega, UInt64.toNat_inj.1 ?_⟩
    rw [UInt64.toNat_add, Nat.mod_eq_of_lt (by omega), h]

theorem sum?_eq_none_iff {a b : UInt64} : sum? a b = none ↔ UInt64.size ≤ a.toNat + b.toNat := by
  simp [sum?]

end Amount

/-! ## Settings -/

/-- The bounds of the memory layer. -/
structure MemorySettings where
  /-- Bytes that all entries together may take. -/
  maxSize : UInt64 := 67108864
  /-- How many entries there may be. -/
  maxItems : UInt64 := 10000
  /-- How long an entry lives, in seconds; without a number it lives for ever. -/
  ttlSeconds : Option UInt64 := some 3600
  deriving DecidableEq, Repr, Inhabited

namespace MemorySettings

/-- How long an entry lives, in milliseconds, as a 64-bit word. -/
def ttl (s : MemorySettings) : Option UInt64 :=
  s.ttlSeconds.map (· * 1000)

def toJson (s : MemorySettings) : Json :=
  .object [("max_size", .ofWord s.maxSize), ("max_items", .ofWord s.maxItems),
    ("ttl_secs", (s.ttlSeconds.map Json.ofWord).getD .null)]

def record : Json.Record MemorySettings where
  name := "MemoryCacheConfig"
  start := {}
  fields := [
    .defaulted "max_size" Json.readSize fun x s => { s with maxSize := x },
    .defaulted "max_items" Json.readSize fun x s => { s with maxItems := x },
    .defaulted "ttl_secs" (Json.readOptional Json.readWord) fun x s => { s with ttlSeconds := x }]

end MemorySettings

/-- Where and how much the disk layer stores. -/
structure DiskSettings where
  directory : String := ".codeloom/cache"
  /-- Bytes that all stored values together may take. -/
  maxSize : UInt64 := 536870912
  deriving DecidableEq, Repr, Inhabited

namespace DiskSettings

def toJson (s : DiskSettings) : Json :=
  .object [("directory", .string s.directory), ("max_size", .ofWord s.maxSize)]

def record : Json.Record DiskSettings where
  name := "FileCacheConfig"
  start := {}
  fields := [
    .defaulted "directory" Json.readPath fun x s => { s with directory := x },
    .defaulted "max_size" Json.readWord fun x s => { s with maxSize := x }]

end DiskSettings

/-- The settings of both layers. -/
structure Settings where
  memory : MemorySettings := {}
  disk : DiskSettings := {}
  /-- Whether there is a disk layer. -/
  useDisk : Bool := true
  /-- How many writes may wait for the disk. -/
  queueCapacity : UInt64 := 1024
  deriving DecidableEq, Repr, Inhabited

namespace Settings

/-- The default settings without a disk layer. -/
def memoryOnly : Settings :=
  { useDisk := false }

def toJson (s : Settings) : Json :=
  .object [("memory", s.memory.toJson), ("file", s.disk.toJson),
    ("enable_file_cache", .bool s.useDisk), ("write_queue_capacity", .ofWord s.queueCapacity)]

def record : Json.Record Settings where
  name := "CacheConfig"
  start := {}
  fields := [
    .defaulted "memory" MemorySettings.record.read fun x s => { s with memory := x },
    .defaulted "file" DiskSettings.record.read fun x s => { s with disk := x },
    .defaulted "enable_file_cache" Json.readBool fun x s => { s with useDisk := x },
    .defaulted "write_queue_capacity" Json.readSize fun x s => { s with queueCapacity := x }]

instance : Json.Form Settings := ⟨toJson, record.read⟩

end Settings

end CodeGraph.Cache
