import CodeGraph.Cache.Layered
import CodeGraph.Proofs.Cache.Memory
import CodeGraph.Proofs.Cache.Programs

/-!
# Operations of both layers

What each operation of the cache does to its three parts, memory, the disk layer with its queue, and
the drive, with its counters left out. A lookup is answered from memory, from the disk or not at all,
and it fails only if the value that comes back into memory is one too much for it (`Looked`,
`looked_of_run`). Storing a value (`run_store`) and carrying out a write (`run_drainOne`) are
described by their results.
-/

namespace CodeGraph.Cache

/-- The disk side after its first write has been carried out with a result. -/
def DiskSide.afterWrite (side : DiskSide) (rest : List PendingWrite) (cache : DiskCache) :
    Except CacheError Bool → DiskSide
  | .ok _ => { side with cache, queue := rest }
  | .error e =>
    if e.isFatal then { side with cache, queue := [], running := false }
    else { side with cache, queue := rest }

namespace LayeredCache

variable {V : Type} {s s' : LayeredState V} {side : DiskSide} {now : UInt64} {key : String}

/-- A state with another disk side and another drive. -/
def withDisk (s : LayeredState V) (side : DiskSide) (drive : Drive) : LayeredState V :=
  { s with cache := { s.cache with disk := some side }, drive }

@[simp] theorem run_change (f : LayeredCache V → LayeredCache V) (s : LayeredState V) :
    (change f).run.run s = (.ok (), { s with cache := f s.cache }) := rfl

theorem run_onDisk {α : Type} (h : s.cache.disk = some side) (op : DiskM α) :
    (onDisk op).run.run s =
      (.ok (some (op.run.run ⟨side.cache, s.drive⟩).1),
        withDisk s { side with cache := (op.run.run ⟨side.cache, s.drive⟩).2.cache }
          (op.run.run ⟨side.cache, s.drive⟩).2.drive) := by
  rw [onDisk, run_bind_ok (run_get s)]
  simp only [h]
  rfl

theorem run_onDisk_none {α : Type} (h : s.cache.disk = none) (op : DiskM α) :
    (onDisk op).run.run s = (.ok none, s) := by
  rw [onDisk, run_bind_ok (run_get s)]
  simp only [h]
  rfl

theorem run_keepInMemory (v : V) (size : Nat) (s : LayeredState V) :
    (keepInMemory now key v size).run.run s =
      match s.cache.memory.set now key v (UInt64.ofNat size) with
      | none => (.error .overflow, s)
      | some (_, memory) => (.ok (), { s with cache := { s.cache with memory } }) := by
  rw [keepInMemory, run_bind_ok (run_get s)]
  rcases s.cache.memory.set now key v (UInt64.ofNat size) with _ | ⟨_, memory⟩ <;> rfl

/-! ## Lookups -/

/-- A state with another memory layer. -/
def withMemory (s : LayeredState V) (memory : MemoryCache V) : LayeredState V :=
  { s with cache := { s.cache with memory } }

theorem run_changeMemory (s : LayeredState V) (memory : MemoryCache V) :
    (change fun c => { c with memory }).run.run s = (.ok (), withMemory s memory) := rfl

/-- Whether two states are the same but for their counters. -/
structure Alike (s s' : LayeredState V) : Prop where
  memory : s'.cache.memory = s.cache.memory
  disk : s'.cache.disk = s.cache.disk
  drive : s'.drive = s.drive

variable [Json.Form V]

section Disk

variable {r : Except CacheError (Option ByteArray)} {ds : DiskState} (hdisk : s.cache.disk = some side)

include hdisk

theorem run_getFromDisk_missing
    (hrun : (DiskCache.get key).run.run ⟨side.cache, s.drive⟩ = (r, ds))
    (hr : ∀ bytes v, r = .ok (some bytes) → Json.decodeBytes Json.Form.read bytes ≠ .ok (v : V)) :
    (getFromDisk now key).run.run s =
      (.ok none, withDisk s { side with cache := ds.cache } ds.drive) := by
  rw [getFromDisk, run_bind_ok (run_onDisk hdisk _), hrun]
  rcases r with e | _ | bytes
  · rfl
  · rfl
  · simp only
    rcases hdecode : Json.decodeBytes Json.Form.read bytes with e | v
    · rfl
    · exact absurd hdecode (hr bytes v rfl)

theorem run_getFromDisk_loaded {bytes : ByteArray} {v : V}
    (hrun : (DiskCache.get key).run.run ⟨side.cache, s.drive⟩ = (.ok (some bytes), ds))
    (hdecode : Json.decodeBytes Json.Form.read bytes = .ok v) :
    (getFromDisk now key).run.run s =
      let s₁ := withDisk s { side with cache := ds.cache } ds.drive
      match s.cache.memory.set now key v (UInt64.ofNat bytes.size) with
      | none => (.error .overflow, s₁)
      | some (_, memory) => (.ok (some v), withMemory s₁ memory) := by
  rw [getFromDisk, run_bind_ok (run_onDisk hdisk _), hrun]
  simp only [hdecode]
  rw [run_bind, run_keepInMemory]
  have hmemory : (withDisk s { side with cache := ds.cache } ds.drive).cache.memory =
      s.cache.memory := rfl
  rw [hmemory]
  rcases s.cache.memory.set now key v (UInt64.ofNat bytes.size) with _ | ⟨_, memory⟩ <;> rfl

end Disk

theorem run_getFromDisk_none (hdisk : s.cache.disk = none) :
    (getFromDisk now key).run.run s = (.ok none, s) := by
  rw [getFromDisk, run_bind_ok (run_onDisk_none hdisk _)]
  rfl

theorem run_lookup_of_memory {v : V} {memory : MemoryCache V}
    (hget : s.cache.memory.get now key = (some v, memory)) :
    ∃ s', (lookup now key).run.run s = (.ok (some v), s') ∧ Alike (withMemory s memory) s' := by
  rw [lookup, run_bind_ok (run_get s), hget]
  exact ⟨_, rfl, rfl, rfl, rfl⟩

theorem run_lookup_of_disk {memory : MemoryCache V} {r : Except CacheError (Option V)}
    (hget : s.cache.memory.get now key = (none, memory))
    (hrun : (getFromDisk now key).run.run (withMemory s memory) = (r, s')) :
    ∃ s'', (lookup now key).run.run s = (r, s'') ∧ Alike s' s'' := by
  rw [lookup, run_bind_ok (run_get s), hget]
  simp only
  rw [run_bind_ok (run_changeMemory s memory)]
  rcases r with e | _ | v
  · exact ⟨s', run_bind_error hrun, rfl, rfl, rfl⟩
  · rw [run_bind_ok hrun]
    exact ⟨_, rfl, rfl, rfl, rfl⟩
  · rw [run_bind_ok hrun]
    exact ⟨_, rfl, rfl, rfl, rfl⟩

theorem run_lookup_of_noDisk {memory : MemoryCache V}
    (hget : s.cache.memory.get now key = (none, memory)) (hdisk : s.cache.disk = none) :
    ∃ s', (lookup now key).run.run s = (.ok none, s') ∧ Alike (withMemory s memory) s' :=
  run_lookup_of_disk hget (run_getFromDisk_none (s := withMemory s memory) hdisk)

/-- What a lookup answers and leaves, its counters left out. -/
inductive Looked (now : UInt64) (key : String) (s : LayeredState V) :
    Except CacheError (Option V) → LayeredState V → Prop
  | inMemory {v : V} {memory : MemoryCache V} {s' : LayeredState V} :
      s.cache.memory.get now key = (some v, memory) → Alike (withMemory s memory) s' →
      Looked now key s (.ok (some v)) s'
  | noDisk {memory : MemoryCache V} {s' : LayeredState V} :
      s.cache.memory.get now key = (none, memory) → s.cache.disk = none →
      Alike (withMemory s memory) s' → Looked now key s (.ok none) s'
  | missing {memory : MemoryCache V} {side : DiskSide} {r : Except CacheError (Option ByteArray)}
      {ds : DiskState} {s' : LayeredState V} :
      s.cache.memory.get now key = (none, memory) → s.cache.disk = some side →
      (DiskCache.get key).run.run ⟨side.cache, s.drive⟩ = (r, ds) →
      (∀ bytes v, r = .ok (some bytes) → Json.decodeBytes Json.Form.read bytes ≠ .ok (v : V)) →
      Alike (withDisk (withMemory s memory) { side with cache := ds.cache } ds.drive) s' →
      Looked now key s (.ok none) s'
  | loaded {memory memory' : MemoryCache V} {side : DiskSide} {bytes : ByteArray} {v : V}
      {ds : DiskState} {stored : Bool} {s' : LayeredState V} :
      s.cache.memory.get now key = (none, memory) → s.cache.disk = some side →
      (DiskCache.get key).run.run ⟨side.cache, s.drive⟩ = (.ok (some bytes), ds) →
      Json.decodeBytes Json.Form.read bytes = .ok v →
      memory.set now key v (UInt64.ofNat bytes.size) = some (stored, memory') →
      Alike (withMemory (withDisk s { side with cache := ds.cache } ds.drive) memory') s' →
      Looked now key s (.ok (some v)) s'
  /-- The value that comes back from the disk is one too much for memory. -/
  | overflow {memory : MemoryCache V} {side : DiskSide} {bytes : ByteArray} {v : V}
      {ds : DiskState} {s' : LayeredState V} :
      s.cache.memory.get now key = (none, memory) → s.cache.disk = some side →
      (DiskCache.get key).run.run ⟨side.cache, s.drive⟩ = (.ok (some bytes), ds) →
      Json.decodeBytes Json.Form.read bytes = .ok v →
      memory.set now key v (UInt64.ofNat bytes.size) = none →
      Alike (withDisk (withMemory s memory) { side with cache := ds.cache } ds.drive) s' →
      Looked now key s (.error .overflow) s'

/-- A lookup does one of these. -/
theorem looked_of_run {r : Except CacheError (Option V)}
    (h : (lookup now key).run.run s = (r, s')) : Looked now key s r s' := by
  rcases hget : s.cache.memory.get now key with ⟨_ | v, memory⟩
  · rcases hdisk : s.cache.disk with _ | side
    · obtain ⟨t, ht, halike⟩ := run_lookup_of_noDisk hget hdisk
      rw [ht] at h
      cases h
      exact .noDisk hget hdisk halike
    · rcases hrun : (DiskCache.get key).run.run ⟨side.cache, s.drive⟩ with ⟨r', ds⟩
      by_cases hr : ∃ bytes v, r' = .ok (some bytes) ∧
        Json.decodeBytes Json.Form.read bytes = .ok (v : V)
      · obtain ⟨bytes, v, rfl, hdecode⟩ := hr
        have hload : (getFromDisk now key).run.run (withMemory s memory) = _ :=
          run_getFromDisk_loaded (s := withMemory s memory) hdisk hrun hdecode
        have hmemory : (withMemory s memory).cache.memory = memory := rfl
        rw [hmemory] at hload
        rcases hset : memory.set now key v (UInt64.ofNat bytes.size) with _ | ⟨stored, memory'⟩
        · rw [hset] at hload
          obtain ⟨t, ht, halike⟩ := run_lookup_of_disk hget hload
          rw [ht] at h
          cases h
          exact .overflow hget hdisk hrun hdecode hset halike
        · rw [hset] at hload
          obtain ⟨t, ht, halike⟩ := run_lookup_of_disk hget hload
          rw [ht] at h
          cases h
          exact .loaded hget hdisk hrun hdecode hset halike
      · have hr' : ∀ bytes v, r' = .ok (some bytes) →
            Json.decodeBytes Json.Form.read bytes ≠ .ok (v : V) :=
          fun bytes v hbytes hdecode => hr ⟨bytes, v, hbytes, hdecode⟩
        have hmiss : (getFromDisk now key).run.run (withMemory s memory) = _ :=
          run_getFromDisk_missing (s := withMemory s memory) hdisk hrun hr'
        obtain ⟨t, ht, halike⟩ := run_lookup_of_disk hget hmiss
        rw [ht] at h
        cases h
        exact .missing hget hdisk hrun hr' halike
  · obtain ⟨t, ht, halike⟩ := run_lookup_of_memory hget
    rw [ht] at h
    cases h
    exact .inMemory hget halike

/-! ## Storing -/

theorem run_store (v : V) (s : LayeredState V) :
    (store now key v).run.run s =
      match s.cache.memory.set now key v (UInt64.ofNat (bytesOf v).size) with
      | none => (.error .overflow, s)
      | some (_, memory) => (.ok (), { s with cache := { s.cache with
          memory
          disk := s.cache.disk.map fun side => DiskSide.enqueue side ⟨key, bytesOf v⟩ } }) := by
  rw [store, run_bind, run_keepInMemory]
  rcases s.cache.memory.set now key v (UInt64.ofNat (bytesOf v).size) with _ | ⟨_, memory⟩ <;> rfl

/-! ## Carrying out writes -/

omit [Json.Form V]

theorem run_drainOne_none (hdisk : s.cache.disk = none) :
    (drainOne now).run.run s = (.ok (), s) := by
  rw [drainOne, run_bind_ok (run_get s)]
  simp only [hdisk]
  rfl

theorem run_drainOne_nil (hdisk : s.cache.disk = some side) (hqueue : side.queue = []) :
    (drainOne now).run.run s = (.ok (), s) := by
  rw [drainOne, run_bind_ok (run_get s)]
  simp only [hdisk, hqueue]
  rfl

/-- The first write of the queue is carried out, whatever comes of it. -/
theorem run_drainOne {w : PendingWrite} {rest : List PendingWrite} {r : Except CacheError Bool}
    {ds : DiskState} (hdisk : s.cache.disk = some side) (hqueue : side.queue = w :: rest)
    (hrun : (DiskCache.set now w.key w.content).run.run ⟨side.cache, s.drive⟩ = (r, ds)) :
    (drainOne now).run.run s =
      (.ok (), withDisk s (side.afterWrite rest ds.cache r) ds.drive) := by
  rw [drainOne, run_bind_ok (run_get s)]
  simp only [hdisk, hqueue]
  rw [run_bind_ok (run_change _ s)]
  have hpopped : ({ s with cache := { s.cache with disk := some { side with queue := rest } } } :
      LayeredState V).cache.disk = some { side with queue := rest } := rfl
  rw [run_bind_ok (run_onDisk hpopped _)]
  simp only [hrun]
  rcases r with e | b
  · rcases hfatal : e.isFatal with _ | _
    · simp only [DiskSide.afterWrite, hfatal]
      rfl
    · simp only [DiskSide.afterWrite, hfatal]
      rfl
  · rfl

end LayeredCache

end CodeGraph.Cache
