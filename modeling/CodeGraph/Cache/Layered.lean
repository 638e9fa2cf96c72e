import CodeGraph.Cache.Disk
import CodeGraph.Cache.Memory

/-!
# The two layers together

A lookup asks memory first and then the disk, and a value found on disk comes back into memory. A
value that is stored is in memory at once and waits in a queue for the disk; a full queue drops the
write. `drain` carries the waiting writes out in their order, and flushing and clearing drain first.

Failures of the disk never reach a lookup or a store: the lookup misses and the write is lost. Only
an overflow in memory does (`CacheError.overflow`).
-/

namespace CodeGraph.Cache

/-- The bytes of a value on disk. -/
def bytesOf {V : Type} [Json.Form V] (v : V) : ByteArray :=
  (Json.Form.write v).compact.toUTF8

/-- A write that waits for the disk. -/
structure PendingWrite where
  key : String
  content : ByteArray

/-- The disk side: the layer, the writes that wait for it, and whether they are still carried
out. -/
structure DiskSide where
  cache : DiskCache
  queue : List PendingWrite := []
  capacity : Nat
  running : Bool := true
  deriving Inhabited

/-- Both layers and their counters. -/
structure LayeredCache (V : Type) where
  memory : MemoryCache V
  disk : Option DiskSide := none
  memoryHits : UInt64 := 0
  diskHits : UInt64 := 0
  misses : UInt64 := 0

/-- What the cache has answered and holds. -/
structure LayeredStats where
  memoryHits : UInt64
  diskHits : UInt64
  misses : UInt64
  /-- The share of hits among all lookups, and zero before the first. -/
  hitRate : Float
  memoryEntries : UInt64
  memorySize : UInt64

namespace LayeredStats

instance : Inhabited LayeredStats := ⟨⟨0, 0, 0, 0.0, 0, 0⟩⟩

def toJson (s : LayeredStats) : Json :=
  .object [("l1_hits", .ofWord s.memoryHits), ("l2_hits", .ofWord s.diskHits),
    ("misses", .ofWord s.misses), ("hit_rate", .ofDouble s.hitRate),
    ("l1_entries", .ofWord s.memoryEntries), ("l1_size", .ofWord s.memorySize)]

def record : Json.Record LayeredStats where
  name := "CacheStats"
  start := default
  fields := [
    .needed "l1_hits" Json.readWord fun x s => { s with memoryHits := x },
    .needed "l2_hits" Json.readWord fun x s => { s with diskHits := x },
    .needed "misses" Json.readWord fun x s => { s with misses := x },
    .needed "hit_rate" Json.readDouble fun x s => { s with hitRate := x },
    .needed "l1_entries" Json.readSize fun x s => { s with memoryEntries := x },
    .needed "l1_size" Json.readSize fun x s => { s with memorySize := x }]

instance : Json.Form LayeredStats := ⟨toJson, record.read⟩

end LayeredStats

/-- A cache and the drive it is on. -/
structure LayeredState (V : Type) where
  cache : LayeredCache V
  drive : Drive

/-- Operations of the cache. A failure leaves what was done before it. -/
abbrev LayeredM (V : Type) := ExceptT CacheError (StateM (LayeredState V))

namespace LayeredCache

variable {V : Type}

/-- The length of the longest queue of writes. -/
def maxCapacity : Nat := 2305843009213693951

/-- A new cache; `running` tells whether there is something that can carry writes out. -/
def new (s : Settings) (running : Bool) : Except CacheError (LayeredCache V) :=
  if !s.useDisk then .ok { memory := .new s.memory }
  else if !running then .error .noRuntime
  else if maxCapacity < s.queueCapacity.toNat then .error .endlessQueue
  else .ok {
    memory := .new s.memory
    disk := some { cache := .new s.disk, capacity := max s.queueCapacity.toNat 1 } }

/-- The counters and the size of the memory layer. -/
def stats (c : LayeredCache V) : LayeredStats :=
  let lookups := c.memoryHits + c.diskHits + c.misses
  { memoryHits := c.memoryHits
    diskHits := c.diskHits
    misses := c.misses
    hitRate :=
      if lookups = 0 then 0.0 else (c.memoryHits + c.diskHits).toFloat / lookups.toFloat
    memoryEntries := UInt64.ofNat c.memory.size
    memorySize := c.memory.currentSize }

/-- Whether there is a disk layer. -/
def hasDisk (c : LayeredCache V) : Bool :=
  c.disk.isSome

def change (f : LayeredCache V → LayeredCache V) : LayeredM V Unit :=
  modify fun s => { s with cache := f s.cache }

/-- Carries out an operation of the disk layer, if there is one. -/
def onDisk {α : Type} (op : DiskM α) : LayeredM V (Option (Except CacheError α)) := do
  let s ← get
  match s.cache.disk with
  | none => return none
  | some side =>
    let (r, ds) := op.run.run ⟨side.cache, s.drive⟩
    set { s with cache := { s.cache with disk := some { side with cache := ds.cache } },
                 drive := ds.drive }
    return some r

def keepInMemory (now : UInt64) (key : String) (v : V) (size : Nat) : LayeredM V Unit := do
  match (← get).cache.memory.set now key v (UInt64.ofNat size) with
  | none => throw .overflow
  | some (_, memory) => change fun c => { c with memory }

/-- Looks a key up on disk. -/
def getFromDisk [Json.Form V] (now : UInt64) (key : String) : LayeredM V (Option V) := do
  match ← onDisk (DiskCache.get key) with
  | some (.ok (some bytes)) =>
    match Json.decodeBytes Json.Form.read bytes with
    | .ok v =>
      keepInMemory now key v bytes.size
      return some v
    | .error _ => return none
  | _ => return none

def lookup [Json.Form V] (now : UInt64) (key : String) : LayeredM V (Option V) := do
  let (v, memory) := (← get).cache.memory.get now key
  change fun c => { c with memory }
  match v with
  | some v =>
    change fun c => { c with memoryHits := c.memoryHits + 1 }
    return some v
  | none =>
    match ← getFromDisk now key with
    | some v =>
      change fun c => { c with diskHits := c.diskHits + 1 }
      return some v
    | none =>
      change fun c => { c with misses := c.misses + 1 }
      return none

/-- Adds a write to the queue, unless the queue is full or no longer carried out. -/
def DiskSide.enqueue (side : DiskSide) (w : PendingWrite) : DiskSide :=
  if side.running ∧ side.queue.length < side.capacity then
    { side with queue := side.queue ++ [w] }
  else side

/-- Stores a value in memory and queues it for the disk. -/
def store [Json.Form V] (now : UInt64) (key : String) (v : V) : LayeredM V Unit := do
  let content := bytesOf v
  keepInMemory now key v content.size
  change fun c => { c with
    disk := c.disk.map fun side => DiskSide.enqueue side ⟨key, content⟩ }

/-- Carries out the first waiting write. A failure loses the write; a fatal one ends the carrying
out of writes altogether. -/
def drainOne (now : UInt64) : LayeredM V Unit := do
  match (← get).cache.disk with
  | none => return
  | some side =>
    match side.queue with
    | [] => return
    | w :: rest =>
      change fun c => { c with disk := some { side with queue := rest } }
      match ← onDisk (DiskCache.set now w.key w.content) with
      | some (.error e) =>
        if e.isFatal then
          change fun c => { c with
            disk := c.disk.map fun side => { side with queue := [], running := false } }
      | _ => return

/-- Carries out a number of waiting writes. -/
def drainMany (now : UInt64) : Nat → LayeredM V Unit
  | 0 => return
  | n + 1 => do
    drainOne now
    drainMany now n

def flush (now : UInt64) : LayeredM V Unit := do
  drainMany now (((← get).cache.disk.map fun side => side.queue.length).getD 0)

/-- Empties both layers; waiting writes are carried out first so that they cannot come after. -/
def clear (now : UInt64) : LayeredM V Unit := do
  change fun c => { c with memory := c.memory.clear }
  flush now
  match ← onDisk DiskCache.clear with
  | some (.error e) => throw e
  | _ => return

/-- What the disk layer holds, if there is one. -/
def diskStats : LayeredM V (Option DiskStats) := do
  match ← onDisk DiskCache.stats with
  | some (.error e) => throw e
  | some (.ok s) => return some s
  | none => return none

end LayeredCache

end CodeGraph.Cache
