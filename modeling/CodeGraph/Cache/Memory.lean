import CodeGraph.Cache.Settings

/-!
# The memory layer

Entries in the order of their last use, the latest first, bounded by number and by total size.
Storing a value puts it first and drops entries from the end until the bounds hold. An entry whose
time has come is not answered any more; it is dropped when it is asked for or when the cache is
purged.

Sizes, times and counters are 64-bit words. A value whose time of expiry would not be one, or whose
size would take the total beyond them, cannot be stored at all: there is no cache afterwards.
-/

namespace CodeGraph.Cache

/-- What has happened to a cache. -/
structure Metrics where
  hits : UInt64 := 0
  misses : UInt64 := 0
  /-- Entries dropped to keep the bounds. -/
  evictions : UInt64 := 0
  /-- Entries dropped because their time had come. -/
  expirations : UInt64 := 0
  deriving DecidableEq, Repr, Inhabited

namespace Metrics

/-- The share of hits among all lookups, and zero before the first. -/
def hitRate (m : Metrics) : Float :=
  let total := m.hits + m.misses
  if total = 0 then 0.0 else m.hits.toFloat / total.toFloat

end Metrics

/-- A stored value. -/
structure MemoryEntry (V : Type) where
  key : String
  value : V
  size : UInt64
  /-- When the entry expires, in milliseconds; without a number it never does. -/
  expiresAt : Option UInt64
  deriving Repr

namespace MemoryEntry

/-- Whether the time of an entry has come. -/
def isExpired {V : Type} (e : MemoryEntry V) (now : UInt64) : Bool :=
  e.expiresAt.any fun t => t ≤ now

end MemoryEntry

/-- The memory layer. -/
structure MemoryCache (V : Type) where
  maxSize : UInt64
  maxItems : UInt64
  /-- How long an entry lives unless its own time is given, in milliseconds. -/
  ttl : Option UInt64
  /-- The entries, the one used last first. -/
  entries : List (MemoryEntry V) := []
  /-- The total size of the entries. -/
  currentSize : UInt64 := 0
  metrics : Metrics := {}
  deriving Repr

namespace MemoryCache

variable {V : Type}

def new (s : MemorySettings) : MemoryCache V :=
  { maxSize := s.maxSize, maxItems := s.maxItems, ttl := s.ttl }

/-- A difference that stops at zero. -/
def lessSize (a b : UInt64) : UInt64 :=
  if b ≤ a then a - b else 0

def entry? (c : MemoryCache V) (key : String) : Option (MemoryEntry V) :=
  c.entries.find? fun e => e.key == key

/-- Drops the entry of a key. -/
def dropEntry (c : MemoryCache V) (key : String) : MemoryCache V :=
  match c.entry? key with
  | none => c
  | some e =>
    { c with
      entries := c.entries.filter fun e => e.key != key
      currentSize := lessSize c.currentSize e.size }

/-- The value of a key, which becomes the entry used last. -/
def get (c : MemoryCache V) (now : UInt64) (key : String) : Option V × MemoryCache V :=
  match c.entry? key with
  | some e =>
    if e.isExpired now then
      let c := c.dropEntry key
      (none, { c with
        metrics := { c.metrics with
          expirations := c.metrics.expirations + 1
          misses := c.metrics.misses + 1 } })
    else
      (some e.value, { c with
        entries := e :: c.entries.filter fun e => e.key != key
        metrics := { c.metrics with hits := c.metrics.hits + 1 } })
  | none => (none, { c with metrics := { c.metrics with misses := c.metrics.misses + 1 } })

/-- Drops entries from the front of a list, the one used longest ago first, until the bounds
hold. -/
def evictOldest (c : MemoryCache V) : List (MemoryEntry V) → UInt64 → UInt64 →
    List (MemoryEntry V) × UInt64 × UInt64
  | [], size, evictions => ([], size, evictions)
  | e :: newer, size, evictions =>
    if c.maxItems.toNat < newer.length + 1 ∨ c.maxSize < size then
      evictOldest c newer (lessSize size e.size) (evictions + 1)
    else (e :: newer, size, evictions)

/-- Drops entries until the bounds hold. -/
def evict (c : MemoryCache V) : MemoryCache V :=
  let (kept, size, evictions) := c.evictOldest c.entries.reverse c.currentSize c.metrics.evictions
  { c with
    entries := kept.reverse
    currentSize := size
    metrics := { c.metrics with evictions } }

/-- When an entry expires that is stored now and has a time to live, or never without one. -/
def expiryOf? (now : UInt64) : Option UInt64 → Option (Option UInt64)
  | none => some none
  | some ttl => (Amount.sum? now ttl).map some

/-- Stores an entry in the place of the one of its key, unless it is larger than the whole cache.
The earlier entry is gone in either case. -/
def put (c : MemoryCache V) (e : MemoryEntry V) : Option (Bool × MemoryCache V) :=
  let c := c.dropEntry e.key
  if c.maxSize < e.size then some (false, c)
  else
    (Amount.sum? c.currentSize e.size).map fun currentSize =>
      (true, evict { c with entries := e :: c.entries, currentSize })

/-- Stores a value with a time to live of its own. -/
def setWithTtl (c : MemoryCache V) (now : UInt64) (key : String) (value : V) (size : UInt64)
    (ttl : Option UInt64) : Option (Bool × MemoryCache V) :=
  (expiryOf? now ttl).bind fun expiresAt => c.put ⟨key, value, size, expiresAt⟩

def set (c : MemoryCache V) (now : UInt64) (key : String) (value : V) (size : UInt64) :
    Option (Bool × MemoryCache V) :=
  c.setWithTtl now key value size c.ttl

/-- Whether a key has a value whose time has not come. -/
def contains (c : MemoryCache V) (now : UInt64) (key : String) : Bool :=
  (c.entry? key).any fun e => !e.isExpired now

def remove (c : MemoryCache V) (key : String) : Option V × MemoryCache V :=
  ((c.entry? key).map (·.value), c.dropEntry key)

/-- Drops every entry whose time has come, and counts them. -/
def purgeExpired (c : MemoryCache V) (now : UInt64) : Nat × MemoryCache V :=
  let expired := c.entries.filter (·.isExpired now)
  let c := expired.foldl (fun c e => c.dropEntry e.key) c
  (expired.length, { c with
    metrics := { c.metrics with
      expirations := c.metrics.expirations + UInt64.ofNat expired.length } })

def clear (c : MemoryCache V) : MemoryCache V :=
  { c with entries := [], currentSize := 0 }

def size (c : MemoryCache V) : Nat :=
  c.entries.length

def isEmpty (c : MemoryCache V) : Bool :=
  c.entries.isEmpty

end MemoryCache

end CodeGraph.Cache
