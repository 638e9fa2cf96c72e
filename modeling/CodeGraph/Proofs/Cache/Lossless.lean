import CodeGraph.Proofs.Cache.Content
import CodeGraph.Proofs.Cache.Layered

/-!
# Nothing is lost behind the bounds of memory

As long as every write is carried out before anything else is done than storing, none is dropped, no
operation on files fails and the largest values of all keys fit on the disk together, the cache
answers as a plain map does (`LayeredCache.performAll_answers`): whatever the bounds of the memory
layer, however entries expire or are dropped from it, and however often the cache is opened again.

The invariant ties the three places of a value together (`LayeredCache.Kept`): what the disk holds,
overwritten by the writes that wait, is the value stored last of each key, and memory holds no other.
Since at most the largest value of each key is in one place, no total of sizes is too much for a
64-bit word or for the disk.
-/

namespace CodeGraph.Cache

/-! ## Calls -/

/-- What is done with a cache. -/
inductive Call (V : Type) where
  | store (key : String) (v : V)
  | lookup (key : String)
  /-- The first waiting write is carried out. -/
  | write
  | flush
  /-- Memory is emptied. -/
  | clearMemory
  /-- The entry of a key is dropped from memory. -/
  | dropMemory (key : String)
  /-- The cache is given up for a new one on the same directory. -/
  | reopen

namespace Call

variable {V : Type}

/-- The values stored last after a call. -/
def update (values : String → Option V) : Call V → String → Option V
  | .store key v => fun k => if k = key then some v else values k
  | .lookup _ | .write | .flush | .clearMemory | .dropMemory _ | .reopen => values

/-- What a map with these values answers to a call. -/
def answer (values : String → Option V) : Call V → Option V
  | .lookup key => values key
  | .store .. | .write | .flush | .clearMemory | .dropMemory _ | .reopen => none

/-- How many writes wait after a call if `n` wait before it. No write may be dropped, and none may
wait when anything is done but storing and carrying writes out. -/
def waiting? (capacity n : Nat) : Call V → Option Nat
  | .store .. => if n < capacity then some (n + 1) else none
  | .write => some (n - 1)
  | .flush => some 0
  | .lookup _ | .clearMemory | .dropMemory _ | .reopen => if n = 0 then some 0 else none

end Call

/-- Calls with the times at which they are made. -/
abbrev Calls (V : Type) := List (UInt64 × Call V)

namespace Calls

variable {V : Type}

/-- What a map answers to calls in turn. -/
def answers (values : String → Option V) : Calls V → List (Option V)
  | [] => []
  | (_, call) :: rest => call.answer values :: answers (call.update values) rest

/-- No write is dropped, and none waits when anything is done but storing. -/
def Paced (capacity : Nat) : Nat → Calls V → Prop
  | _, [] => True
  | n, (_, call) :: rest => ∃ n', call.waiting? capacity n = some n' ∧ Paced capacity n' rest

/-- The keys under which calls store values. -/
def storedKeys : Calls V → List String
  | [] => []
  | (_, .store key _) :: rest => key :: storedKeys rest
  | _ :: rest => storedKeys rest

/-- The size of the largest value that calls store under a key. -/
def largest [Json.Form V] (key : String) : Calls V → Nat
  | [] => 0
  | (_, .store k v) :: rest =>
    if k = key then max (bytesOf v).size (largest key rest) else largest key rest
  | _ :: rest => largest key rest

theorem mem_storedKeys {calls : Calls V} {t : UInt64} {key : String} {v : V}
    (h : (t, .store key v) ∈ calls) : key ∈ storedKeys calls := by
  induction calls with
  | nil => cases h
  | cons head rest ih =>
    rcases List.mem_cons.1 h with rfl | hrest
    · exact List.mem_cons_self ..
    · have hkey := ih hrest
      obtain ⟨t', call⟩ := head
      cases call with
      | store => exact List.mem_cons_of_mem _ hkey
      | _ => exact hkey

theorem size_le_largest [Json.Form V] {calls : Calls V} {t : UInt64} {key : String} {v : V}
    (h : (t, .store key v) ∈ calls) : (bytesOf v).size ≤ largest key calls := by
  induction calls with
  | nil => cases h
  | cons head rest ih =>
    rcases List.mem_cons.1 h with rfl | hrest
    · rw [largest, if_pos rfl]
      exact Nat.le_max_left ..
    · have hle := ih hrest
      obtain ⟨t', call⟩ := head
      cases call with
      | store k u =>
        rw [largest]
        split
        · exact Nat.le_trans hle (Nat.le_max_right ..)
        · exact hle
      | _ => exact hle

end Calls

namespace LayeredCache

variable {V : Type} [Json.Form V]

/-- Makes a call at a time. -/
def perform (settings : Settings) (now : UInt64) : Call V → LayeredM V (Option V)
  | .store key v => do
    store now key v
    return none
  | .lookup key => lookup now key
  | .write => do
    drainOne now
    return none
  | .flush => do
    flush now
    return none
  | .clearMemory => do
    change fun c => { c with memory := c.memory.clear }
    return none
  | .dropMemory key => do
    change fun c => { c with memory := (c.memory.remove key).2 }
    return none
  | .reopen => do
    match new settings true with
    | .ok c => change fun _ => c
    | .error e => throw e
    return none

/-- Makes calls in turn. -/
def performAll (settings : Settings) : Calls V → LayeredM V (List (Option V))
  | [] => return []
  | (now, call) :: rest => do
    let answer ← perform settings now call
    return answer :: (← performAll settings rest)

/-! ## The invariant -/

/-- What is stored under each key after a write has been carried out. -/
def overwritten (values : String → Option ByteArray) (w : PendingWrite) : String → Option ByteArray :=
  fun k => if k = w.key then some w.content else values k

/-- What the disk holds of a key. -/
def held (m : Content) (key : String) : Option ByteArray :=
  ((m (keyDigest key)).filter fun p => p.1.key = key).map Prod.snd

/-- The terms on which a cache is used: its settings, the directory they name, and how much there may
be of each of some keys. -/
structure Terms where
  settings : Settings
  shelf : Shelf
  keys : List String
  /-- The largest size of a value of a key. -/
  cap : String → Nat
  directory : settings.disk.directory = shelf.path
  digests : ∀ a ∈ keys, ∀ b ∈ keys, keyDigest a = keyDigest b → a = b
  budget : (keys.map cap).sum ≤ settings.disk.maxSize.toNat

/-- Whether a value may be stored under a key. -/
structure Terms.Allows (T : Terms) (key : String) (v : V) : Prop where
  known : key ∈ T.keys
  size : (bytesOf v).size ≤ T.cap key
  read : Json.decodeBytes Json.Form.read (bytesOf v) = .ok v

/-- A memory layer with nothing but the values stored last. -/
structure KeptMemory (T : Terms) (values : String → Option V) (c : MemoryCache V) : Prop where
  consistent : c.Consistent
  ttl : c.ttl = T.settings.memory.ttl
  entry : ∀ e ∈ c.entries,
    values e.key = some e.value ∧ e.size = UInt64.ofNat (bytesOf e.value).size

/-- A disk side that holds the values stored last once the waiting writes have been carried out. -/
structure KeptDisk (T : Terms) (values : String → Option V) (side : DiskSide) (drive : Drive)
    (m : Content) : Prop where
  running : side.running = true
  capacity : side.capacity = max T.settings.queueCapacity.toNat 1
  maxSize : side.cache.maxSize = T.settings.disk.maxSize
  settled : T.shelf.Settled ⟨side.cache, drive⟩ m
  content : ∀ d p, m d = some p → keyDigest p.1.key = d ∧ p.1.key ∈ T.keys ∧
    p.2.size ≤ T.cap p.1.key ∧ p.1.size = UInt64.ofNat p.2.size
  queue : ∀ w ∈ side.queue, w.key ∈ T.keys ∧ w.content.size ≤ T.cap w.key
  agree : ∀ k, side.queue.foldl overwritten (held m) k = (values k).map bytesOf

/-- Memory, the disk and the waiting writes hold the values stored last. -/
structure Kept (T : Terms) (values : String → Option V) (n : Nat) (s : LayeredState V) : Prop where
  allowed : ∀ k v, values k = some v → T.Allows k v
  memory : KeptMemory T values s.cache.memory
  disk : ∃ side m, s.cache.disk = some side ∧ side.queue.length = n ∧
    KeptDisk T values side s.drive m

variable {T : Terms} {values : String → Option V} {n : Nat} {s s' : LayeredState V}
  {side : DiskSide} {drive : Drive} {m : Content} {now : UInt64} {key : String} {v : V}

/-! ## Budgets -/

namespace Terms

omit [Json.Form V] in
theorem cap_le (hkey : key ∈ T.keys) : T.cap key ≤ (T.keys.map T.cap).sum := by
  rw [← sum_erase_add hkey]
  exact Nat.le_add_left ..

omit [Json.Form V] in
theorem sum_lt : (T.keys.map T.cap).sum < UInt64.size :=
  Nat.lt_of_le_of_lt T.budget T.settings.disk.maxSize.toNat_lt

omit [Json.Form V] in
/-- The size of a value that may be stored is a 64-bit word. -/
theorem toNat_size (hkey : key ∈ T.keys) {size : Nat} (hsize : size ≤ T.cap key) :
    (UInt64.ofNat size).toNat = size :=
  UInt64.toNat_ofNat_of_lt'
    (Nat.lt_of_le_of_lt (Nat.le_trans hsize (T.cap_le hkey)) T.sum_lt)

end Terms

/-! ## Memory -/

namespace KeptMemory

variable {c c' : MemoryCache V}

/-- A memory layer with no more entries. -/
theorem of_subset (h : KeptMemory T values c) (hconsistent : c'.Consistent) (httl : c'.ttl = c.ttl)
    (hentries : ∀ e ∈ c'.entries, e ∈ c.entries) : KeptMemory T values c' :=
  ⟨hconsistent, httl.trans h.ttl, fun e he => h.entry e (hentries e he)⟩

theorem get (h : KeptMemory T values c) (now : UInt64) (key : String) :
    KeptMemory T values (c.get now key).2 :=
  h.of_subset (h.consistent.get now key) (MemoryCache.ttl_get c now key)
    (MemoryCache.mem_of_get c now key).2

/-- A value that may be stored is stored in memory or left out. -/
theorem exists_set (h : KeptMemory T values c) (hallowed : ∀ k v, values k = some v → T.Allows k v)
    (hexpiry : ∀ t, T.settings.memory.ttl = some t → now.toNat + t.toNat < UInt64.size)
    (hv : T.Allows key v) :
    ∃ stored c', c.set now key v (UInt64.ofNat (bytesOf v).size) = some (stored, c') ∧
      KeptMemory T (fun k => if k = key then some v else values k) c' := by
  have hsize := T.toNat_size hv.known hv.size
  -- The running total passes through that of the other keys and the new value, before anything is
  -- evicted, so the caps of all keys bound it.
  have hothers : MemoryCache.total (c.entries.filter fun e => e.key != key) + T.cap key ≤
      (T.keys.map T.cap).sum := by
    refine sum_others_add_le h.consistent.nodup ?_ hv.known
    intro e he
    obtain ⟨hvalue, hword⟩ := h.entry e he
    have hallows := hallowed _ _ hvalue
    rw [hword, T.toNat_size hallows.known hallows.size]
    exact ⟨hallows.known, hallows.size⟩
  have hsum := T.sum_lt
  have hcap := hv.size
  have hroom : MemoryCache.total (c.entries.filter fun e => e.key != key) +
      (UInt64.ofNat (bytesOf v).size).toNat < UInt64.size := by
    rw [hsize]
    omega
  obtain ⟨stored, c', hset⟩ : ∃ stored c',
      c.set now key v (UInt64.ofNat (bytesOf v).size) = some (stored, c') :=
    MemoryCache.exists_set h.consistent (fun t ht => hexpiry t (h.ttl.symm.trans ht)) hroom
  refine ⟨stored, c', hset, h.consistent.set hset, (MemoryCache.ttl_set hset).trans h.ttl,
    fun e he => ?_⟩
  rcases MemoryCache.mem_of_set hset e he with ⟨rfl, rfl, hword⟩ | ⟨he, hne⟩
  · exact ⟨if_pos rfl, hword⟩
  · rw [if_neg hne]
    exact h.entry e he

/-- The value stored last comes back into memory or is left out. -/
theorem exists_reload (h : KeptMemory T values c)
    (hallowed : ∀ k v, values k = some v → T.Allows k v)
    (hexpiry : ∀ t, T.settings.memory.ttl = some t → now.toNat + t.toNat < UInt64.size)
    (hv : values key = some v) :
    ∃ stored c', c.set now key v (UInt64.ofNat (bytesOf v).size) = some (stored, c') ∧
      KeptMemory T values c' := by
  have hsame : (fun k => if k = key then some v else values k) = values := by
    funext k
    split
    · next hk => rw [hk, hv]
    · rfl
  obtain ⟨stored, c', hset, hkept⟩ := h.exists_set hallowed hexpiry (hallowed key v hv)
  rw [hsame] at hkept
  exact ⟨stored, c', hset, hkept⟩

end KeptMemory

/-! ## The disk -/

namespace KeptDisk

omit [Json.Form V] in
theorem indexed_fits (hm : ∀ d p, m d = some p → keyDigest p.1.key = d ∧ p.1.key ∈ T.keys ∧
    p.2.size ≤ T.cap p.1.key ∧ p.1.size = UInt64.ofNat p.2.size) :
    DiskIndex.Fits m.indexed T.settings.disk.maxSize.toNat := by
  refine Content.fits T.cap T.keys (fun d p hp => ?_) T.budget
  obtain ⟨hdigest, hkey, hsize, hword⟩ := hm d p hp
  refine ⟨hdigest, hkey, ?_⟩
  rw [hword, T.toNat_size hkey hsize]
  exact hsize

/-- What a lookup finds on disk when no write waits is the value stored last. -/
theorem get (h : KeptDisk T values side drive m) (hqueue : side.queue = []) (key : String) :
    ∃ r, (DiskCache.get key).run.run ⟨side.cache, drive⟩ = (r, ⟨side.cache, drive⟩) ∧
      ∀ bytes, r = .ok (some bytes) ↔ (values key).map bytesOf = some bytes := by
  have hagree := h.agree key
  rw [hqueue, List.foldl_nil, held] at hagree
  rw [← hagree]
  rcases hm : m (keyDigest key) with _ | p
  · obtain ⟨r, hrun, hr⟩ := h.settled.get_of_none hm
    exact ⟨r, hrun, fun bytes => ⟨fun hbytes => absurd hbytes (hr bytes), fun hnone => by cases hnone⟩⟩
  · by_cases hkey : p.1.key = key
    · refine ⟨_, h.settled.get_of_content hm hkey, fun bytes => ?_⟩
      rw [Option.filter_some, if_pos (decide_eq_true hkey)]
      simp
    · refine ⟨_, h.settled.get_of_other hm hkey, fun bytes => ?_⟩
      rw [Option.filter_some, if_neg (by simpa using hkey)]
      simp

omit [Json.Form V] in
/-- Writing an entry overwrites what the disk holds of its key and of no other. -/
theorem held_store (hm : ∀ d p, m d = some p → p.1.key ∈ T.keys) {w : PendingWrite}
    (hw : w.key ∈ T.keys) {sc : Sidecar} (hsc : sc.key = w.key) :
    held (m.store (keyDigest w.key) (sc, w.content)) = overwritten (held m) w := by
  funext k
  rw [overwritten, held, held, Content.store]
  by_cases hk : k = w.key
  · simp [hk, hsc]
  · rw [if_neg hk]
    -- A value of `k` in the slot would make `k` a known key, and known keys have slots of their own.
    by_cases hdigest : keyDigest k = keyDigest w.key
    · have hother : (m (keyDigest k)).filter (fun p => p.1.key = k) = none := by
        rw [Option.filter_eq_none_iff]
        intro p hp hkey
        have hp := hm _ p hp
        rw [of_decide_eq_true hkey] at hp
        exact hk (T.digests k hp w.key hw hdigest)
      have hne : w.key ≠ k := fun heq => hk heq.symm
      rw [if_pos hdigest, hother]
      simp [hsc, hne]
    · rw [if_neg hdigest]

theorem enqueue (h : KeptDisk T values side drive m) (hroom : side.queue.length < side.capacity)
    (hv : T.Allows key v) :
    KeptDisk T (fun k => if k = key then some v else values k)
        (DiskSide.enqueue side ⟨key, bytesOf v⟩) drive m ∧
      (DiskSide.enqueue side ⟨key, bytesOf v⟩).queue.length = side.queue.length + 1 := by
  rw [DiskSide.enqueue, if_pos ⟨h.running, hroom⟩]
  refine ⟨⟨h.running, h.capacity, h.maxSize, h.settled, h.content, fun w hw => ?_, fun k => ?_⟩,
    by simp⟩
  · rcases List.mem_append.1 hw with hw | hw
    · exact h.queue w hw
    · obtain rfl := List.mem_singleton.1 hw
      exact ⟨hv.known, hv.size⟩
  · simp only [List.foldl_append, List.foldl_cons, List.foldl_nil, overwritten]
    split
    · rfl
    · exact h.agree k

theorem write (h : KeptDisk T values side drive m) {w : PendingWrite} {rest : List PendingWrite}
    (hqueue : side.queue = w :: rest) (now : UInt64) :
    ∃ ds m', (DiskCache.set now w.key w.content).run.run ⟨side.cache, drive⟩ = (.ok true, ds) ∧
      KeptDisk T values { side with cache := ds.cache, queue := rest } ds.drive m' := by
  obtain ⟨hkey, hsize⟩ := h.queue w (hqueue ▸ List.mem_cons_self ..)
  obtain ⟨sc, hsc⟩ : ∃ sc : Sidecar,
      sc = ⟨w.key, now, UInt64.ofNat w.content.size, Sidecar.currentVersion⟩ := ⟨_, rfl⟩
  have hm : ∀ d p, m.store (keyDigest w.key) (sc, w.content) d = some p →
      keyDigest p.1.key = d ∧ p.1.key ∈ T.keys ∧ p.2.size ≤ T.cap p.1.key ∧
        p.1.size = UInt64.ofNat p.2.size := fun d p hp => by
    rw [Content.store] at hp
    split at hp
    · next hd =>
      cases hp
      rw [hsc]
      exact ⟨hd.symm, hkey, hsize, rfl⟩
    · exact h.content d p hp
  have hold := indexed_fits h.content
  have hnew := indexed_fits hm
  rw [← h.maxSize] at hold hnew
  obtain ⟨ds, hset, hsettled, hmax⟩ := h.settled.run_set hsc hold hnew
  refine ⟨ds, _, hset, h.running, h.capacity, hmax.trans h.maxSize, hsettled, hm,
    fun w' hw' => h.queue w' (hqueue ▸ List.mem_cons_of_mem _ hw'), fun k => ?_⟩
  rw [held_store (fun d p hp => (h.content d p hp).2.1) hkey (by rw [hsc]), ← h.agree k, hqueue]
  rfl

theorem reopen (h : KeptDisk T values side drive m) (hqueue : side.queue = []) :
    KeptDisk T values { cache := .new T.settings.disk, capacity := side.capacity } drive m := by
  refine ⟨rfl, h.capacity, rfl, h.settled.reopen T.directory, h.content, fun w hw => (by cases hw),
    fun k => ?_⟩
  rw [← h.agree k, hqueue]

end KeptDisk

/-! ## Calls on a kept cache -/

omit [Json.Form V] in
theorem new_parts {settings : Settings} {c : LayeredCache V} (huse : settings.useDisk = true)
    (hnew : new settings true = .ok c) :
    c.memory = .new settings.memory ∧ c.disk = some
      { cache := .new settings.disk, capacity := max settings.queueCapacity.toNat 1 } := by
  rw [new, huse] at hnew
  simp only [Bool.not_true, Bool.false_eq_true, if_false] at hnew
  split at hnew
  · cases hnew
  · cases hnew
    exact ⟨rfl, rfl⟩

namespace Kept

/-- A state whose memory layer has changed, and whose disk side has not. -/
theorem of_memory (h : Kept T values n s) (hmemory : KeptMemory T values s'.cache.memory)
    (hdisk : s'.cache.disk = s.cache.disk) (hdrive : s'.drive = s.drive) : Kept T values n s' :=
  ⟨h.allowed, hmemory, by rw [hdisk, hdrive]; exact h.disk⟩

theorem store (h : Kept T values n s) (hroom : n < max T.settings.queueCapacity.toNat 1)
    (hexpiry : ∀ t, T.settings.memory.ttl = some t → now.toNat + t.toNat < UInt64.size)
    (hv : T.Allows key v) :
    ∃ s', (store now key v).run.run s = (.ok (), s') ∧
      Kept T (fun k => if k = key then some v else values k) (n + 1) s' := by
  obtain ⟨side, m, hdisk, rfl, hkept⟩ := h.disk
  obtain ⟨stored, memory, hset, hmemory⟩ := h.memory.exists_set h.allowed hexpiry hv
  obtain ⟨hkept', hlength⟩ := hkept.enqueue (hkept.capacity.symm ▸ hroom) hv
  rw [run_store, hset]
  refine ⟨_, rfl, fun k u hu => ?_, hmemory, _, m, ?_, hlength, hkept'⟩
  · split at hu
    · next hk =>
      cases hu
      exact hk ▸ hv
    · exact h.allowed k u hu
  · rw [hdisk]
    rfl

/-- A lookup on disk changes nothing if no write waits, and it finds the value stored last. -/
theorem get (h : Kept T values 0 s) (hdisk : s.cache.disk = some side)
    {r : Except CacheError (Option ByteArray)} {ds : DiskState}
    (hrun : (DiskCache.get key).run.run ⟨side.cache, s.drive⟩ = (r, ds)) :
    withDisk s { side with cache := ds.cache } ds.drive = s ∧
      ∀ bytes, r = .ok (some bytes) ↔ (values key).map bytesOf = some bytes := by
  obtain ⟨side', m, hdisk', hlength, hkept⟩ := h.disk
  rw [hdisk] at hdisk'
  cases hdisk'
  obtain ⟨r', hrun', hr⟩ := hkept.get (List.eq_nil_of_length_eq_zero hlength) key
  rw [hrun'] at hrun
  cases hrun
  exact ⟨by rw [withDisk, ← hdisk], hr⟩

/-- What is read back from the disk is the value stored last. -/
theorem read (h : Kept T values 0 s) {bytes : ByteArray}
    (hbytes : (values key).map bytesOf = some bytes)
    (hdecode : Json.decodeBytes Json.Form.read bytes = .ok v) :
    values key = some v ∧ bytes = bytesOf v := by
  obtain ⟨u, hu, rfl⟩ := Option.map_eq_some_iff.1 hbytes
  rw [(h.allowed key u hu).read] at hdecode
  cases hdecode
  exact ⟨hu, rfl⟩

/-- A lookup answers the value stored last if no write waits. -/
theorem lookup (h : Kept T values 0 s)
    (hexpiry : ∀ t, T.settings.memory.ttl = some t → now.toNat + t.toNat < UInt64.size) :
    ∃ s', (lookup now key).run.run s = (.ok (values key), s') ∧ Kept T values 0 s' := by
  have hmemory := h.memory.get now key
  have hreload : ∀ v, values key = some v → ∃ stored c',
      (s.cache.memory.get now key).2.set now key v (UInt64.ofNat (bytesOf v).size) =
        some (stored, c') ∧ KeptMemory T values c' := fun v hv =>
    hmemory.exists_reload h.allowed hexpiry hv
  rcases hlookup : (LayeredCache.lookup now key).run.run s with ⟨answer, s'⟩
  suffices hanswer : answer = .ok (values key) ∧ Kept T values 0 s' from
    ⟨s', by rw [hanswer.1], hanswer.2⟩
  cases looked_of_run hlookup with
  | @inMemory v memory _ hget halike =>
    obtain ⟨e, he, hkey, hvalue⟩ :=
      (MemoryCache.mem_of_get s.cache.memory now key).1 v (by rw [hget])
    rw [hget] at hmemory
    refine ⟨?_, h.of_memory (halike.memory.symm ▸ hmemory) halike.disk halike.drive⟩
    rw [← hkey, (h.memory.entry e he).1, hvalue]
  | noDisk _ hnone =>
    obtain ⟨side, _, hdisk, _⟩ := h.disk
    rw [hdisk] at hnone
    cases hnone
  | @missing memory side r ds _ hget hdisk hrun hr halike =>
    obtain ⟨hsame, hr'⟩ := h.get hdisk hrun
    rw [hget] at hmemory
    refine ⟨?_, h.of_memory (halike.memory.symm ▸ hmemory)
      (halike.disk.trans (congrArg (·.cache.disk) hsame))
      (halike.drive.trans (congrArg (·.drive) hsame))⟩
    rcases hvalue : values key with _ | v
    · rfl
    · have hbytes : r = .ok (some (bytesOf v)) := (hr' _).2 (by rw [hvalue]; rfl)
      exact absurd (h.allowed key v hvalue).read (hr _ v hbytes)
  | @loaded memory memory' side bytes v ds stored _ hget hdisk hrun hdecode hset halike =>
    obtain ⟨hsame, hr⟩ := h.get hdisk hrun
    obtain ⟨hv, rfl⟩ := h.read ((hr bytes).1 rfl) hdecode
    obtain ⟨stored', c', hset', hkept'⟩ := hreload v hv
    rw [hget, hset] at hset'
    cases hset'
    exact ⟨congrArg _ hv.symm, h.of_memory (halike.memory.symm ▸ hkept')
      (halike.disk.trans (congrArg (·.cache.disk) hsame))
      (halike.drive.trans (congrArg (·.drive) hsame))⟩
  | @overflow memory side bytes v ds _ hget hdisk hrun hdecode hset =>
    obtain ⟨-, hr⟩ := h.get hdisk hrun
    obtain ⟨hv, rfl⟩ := h.read ((hr bytes).1 rfl) hdecode
    obtain ⟨stored, c', hset', -⟩ := hreload v hv
    rw [hget, hset] at hset'
    cases hset'

theorem write (h : Kept T values n s) (now : UInt64) :
    ∃ s', (drainOne now).run.run s = (.ok (), s') ∧ Kept T values (n - 1) s' := by
  obtain ⟨side, m, hdisk, rfl, hkept⟩ := h.disk
  rcases hqueue : side.queue with _ | ⟨w, rest⟩
  · exact ⟨s, run_drainOne_nil hdisk hqueue, h.allowed, h.memory, side, m, hdisk, by rw [hqueue]; rfl,
      hkept⟩
  · obtain ⟨ds, m', hset, hkept'⟩ := hkept.write hqueue now
    exact ⟨_, run_drainOne hdisk hqueue hset, h.allowed, h.memory, _, m', rfl, rfl, hkept'⟩

theorem writeMany (h : Kept T values n s) (now : UInt64) (count : Nat) :
    ∃ s', (drainMany now count).run.run s = (.ok (), s') ∧ Kept T values (n - count) s' := by
  induction count generalizing n s with
  | zero => exact ⟨s, rfl, h⟩
  | succ count ih =>
    obtain ⟨s₁, hwrite, h₁⟩ := h.write now
    obtain ⟨s₂, hrest, h₂⟩ := ih h₁
    refine ⟨s₂, ?_, ?_⟩
    · rw [drainMany, run_bind_ok hwrite]
      exact hrest
    · rw [Nat.sub_sub, Nat.add_comm] at h₂
      exact h₂

/-- No write waits after a flush. -/
theorem flush (h : Kept T values n s) (now : UInt64) :
    ∃ s', (flush now).run.run s = (.ok (), s') ∧ Kept T values 0 s' := by
  obtain ⟨side, m, hdisk, hlength, -⟩ := h.disk
  obtain ⟨s', hrun, hkept⟩ := h.writeMany now n
  refine ⟨s', ?_, Nat.sub_self n ▸ hkept⟩
  rw [LayeredCache.flush, run_bind_ok (run_get s), hdisk]
  simp only [Option.map_some, Option.getD_some, hlength]
  exact hrun

theorem reopen (h : Kept T values 0 s) {c : LayeredCache V}
    (hmemory : c.memory = .new T.settings.memory) (hdisk : c.disk = some
      { cache := .new T.settings.disk, capacity := max T.settings.queueCapacity.toNat 1 }) :
    Kept T values 0 { s with cache := c } := by
  obtain ⟨side, m, -, hlength, hkept⟩ := h.disk
  refine ⟨h.allowed, ⟨?_, ?_, ?_⟩, _, m, hdisk, rfl, ?_⟩
  · rw [hmemory]
    exact MemoryCache.consistent_new _
  · rw [hmemory]
    rfl
  · rw [hmemory]
    intro e he
    cases he
  · rw [← hkept.capacity]
    exact hkept.reopen (List.eq_nil_of_length_eq_zero hlength)

/-- A call is answered as by a map. -/
theorem perform (h : Kept T values n s) {c : LayeredCache V} (huse : T.settings.useDisk = true)
    (hnew : new T.settings true = .ok c) {call : Call V} {n' : Nat}
    (hwaiting : call.waiting? (max T.settings.queueCapacity.toNat 1) n = some n')
    (hexpiry : ∀ t, T.settings.memory.ttl = some t → now.toNat + t.toNat < UInt64.size)
    (hallows : ∀ key v, call = .store key v → T.Allows key v) :
    ∃ s', (perform T.settings now call).run.run s = (.ok (call.answer values), s') ∧
      Kept T (call.update values) n' s' := by
  cases call with
  | store key v =>
    simp only [Call.waiting?, Option.ite_none_right_eq_some, Option.some.injEq] at hwaiting
    obtain ⟨hroom, rfl⟩ := hwaiting
    obtain ⟨s', hrun, hkept⟩ := h.store hroom hexpiry (hallows key v rfl)
    exact ⟨s', by rw [LayeredCache.perform, run_bind_ok hrun]; rfl, hkept⟩
  | lookup key =>
    simp only [Call.waiting?, Option.ite_none_right_eq_some, Option.some.injEq] at hwaiting
    obtain ⟨rfl, rfl⟩ := hwaiting
    exact h.lookup hexpiry
  | write =>
    obtain rfl := Option.some.inj hwaiting
    obtain ⟨s', hrun, hkept⟩ := h.write now
    exact ⟨s', by rw [LayeredCache.perform, run_bind_ok hrun]; rfl, hkept⟩
  | flush =>
    obtain rfl := Option.some.inj hwaiting
    obtain ⟨s', hrun, hkept⟩ := h.flush now
    exact ⟨s', by rw [LayeredCache.perform, run_bind_ok hrun]; rfl, hkept⟩
  | clearMemory =>
    simp only [Call.waiting?, Option.ite_none_right_eq_some, Option.some.injEq] at hwaiting
    obtain ⟨rfl, rfl⟩ := hwaiting
    refine ⟨_, rfl, h.of_memory (h.memory.of_subset (MemoryCache.consistent_clear _) rfl ?_) rfl rfl⟩
    intro e he
    cases he
  | dropMemory key =>
    simp only [Call.waiting?, Option.ite_none_right_eq_some, Option.some.injEq] at hwaiting
    obtain ⟨rfl, rfl⟩ := hwaiting
    exact ⟨_, rfl, h.of_memory (h.memory.of_subset (h.memory.consistent.dropEntry key)
      (MemoryCache.ttl_dropEntry _ key) fun e he => (MemoryCache.mem_dropEntry.1 he).1) rfl rfl⟩
  | reopen =>
    simp only [Call.waiting?, Option.ite_none_right_eq_some, Option.some.injEq] at hwaiting
    obtain ⟨rfl, rfl⟩ := hwaiting
    obtain ⟨hmemory, hdisk⟩ := new_parts huse hnew
    refine ⟨_, ?_, h.reopen hmemory hdisk⟩
    rw [LayeredCache.perform, hnew]
    rfl

theorem performAll {calls : Calls V} (h : Kept T values n s) {c : LayeredCache V}
    (huse : T.settings.useDisk = true) (hnew : new T.settings true = .ok c)
    (hpaced : calls.Paced (max T.settings.queueCapacity.toNat 1) n)
    (hexpiry : ∀ now call, (now, call) ∈ calls →
      ∀ t, T.settings.memory.ttl = some t → now.toNat + t.toNat < UInt64.size)
    (hallows : ∀ now key v, (now, .store key v) ∈ calls → T.Allows key v) :
    ∃ s', (performAll T.settings calls).run.run s = (.ok (calls.answers values), s') := by
  -- The invariant goes along with the values of the map and the number of writes that wait.
  induction calls generalizing values n s with
  | nil => exact ⟨s, rfl⟩
  | cons head rest ih =>
    obtain ⟨now, call⟩ := head
    obtain ⟨n', hwaiting, hpaced⟩ := hpaced
    obtain ⟨s₁, hrun, hkept⟩ := h.perform huse hnew hwaiting
      (hexpiry now call (List.mem_cons_self ..))
      fun key v hcall => hallows now key v (hcall ▸ List.mem_cons_self ..)
    obtain ⟨s₂, hrest⟩ := ih hkept hpaced
      (fun t call hmem => hexpiry t call (List.mem_cons_of_mem _ hmem))
      fun t key v hmem => hallows t key v (List.mem_cons_of_mem _ hmem)
    refine ⟨s₂, ?_⟩
    rw [LayeredCache.performAll, run_bind_ok hrun, run_bind_ok hrest]
    rfl

end Kept

/-- A new cache on a fresh directory holds nothing. -/
theorem kept_new {c : LayeredCache V} (huse : T.settings.useDisk = true)
    (hnew : new T.settings true = .ok c)
    (hsettled : T.shelf.Settled ⟨.new T.settings.disk, drive⟩ fun _ => none) :
    Kept T (fun _ => none) 0 (⟨c, drive⟩ : LayeredState V) := by
  obtain ⟨hmemory, hdisk⟩ := new_parts huse hnew
  refine ⟨fun k v hv => (by cases hv), ⟨?_, ?_, ?_⟩, _, _, hdisk, rfl, rfl, rfl, rfl, hsettled,
    fun d p hp => (by cases hp), fun w hw => (by cases hw), fun k => rfl⟩
  · rw [hmemory]
    exact MemoryCache.consistent_new _
  · rw [hmemory]
    rfl
  · rw [hmemory]
    intro e he
    cases he

/-- **A cache answers as a plain map does**, whatever the bounds of its memory layer: each lookup
answers the value stored last under its key, and none if there is none. The keys under which values
are stored have digests of their own. -/
theorem performAll_answers {settings : Settings} {c : LayeredCache V} {drive : Drive}
    {calls : Calls V} (huse : settings.useDisk = true) (hnew : new settings true = .ok c)
    (hfresh : Fresh drive.volume settings.disk.directory) (hfaults : drive.faults = [])
    (hpaced : calls.Paced (max settings.queueCapacity.toNat 1) 0)
    (hexpiry : ∀ now call, (now, call) ∈ calls →
      ∀ t, settings.memory.ttl = some t → now.toNat + t.toNat < UInt64.size)
    (hread : ∀ now key v, (now, .store key v) ∈ calls →
      Json.decodeBytes Json.Form.read (bytesOf v) = .ok v)
    (hbudget : (calls.storedKeys.eraseDups.map fun key => calls.largest key).sum ≤
      settings.disk.maxSize.toNat)
    (hdigests : ∀ a ∈ calls.storedKeys, ∀ b ∈ calls.storedKeys, keyDigest a = keyDigest b → a = b) :
    ∃ s, (performAll settings calls).run.run ⟨c, drive⟩ =
      (.ok (calls.answers fun _ => none), s) := by
  obtain ⟨S, hpath, hsettled⟩ := Shelf.exists_settled_new settings.disk drive hfresh hfaults
  let T : Terms := {
    settings, shelf := S, keys := calls.storedKeys.eraseDups, cap := fun key => calls.largest key
    directory := hpath.symm
    digests := fun a ha b hb => hdigests a (List.mem_eraseDups.1 ha) b (List.mem_eraseDups.1 hb)
    budget := hbudget }
  have hkept : Kept T (fun _ => none) 0 (⟨c, drive⟩ : LayeredState V) :=
    kept_new huse hnew hsettled
  exact hkept.performAll huse hnew hpaced hexpiry fun now key v hmem =>
    ⟨List.mem_eraseDups.2 (Calls.mem_storedKeys hmem), Calls.size_le_largest hmem,
      hread now key v hmem⟩

/-- The default settings with a directory of their own. -/
def plainSettings : Settings :=
  { disk := { directory := "cache" } }

/-- Values of two keys are stored, one of them twice, and looked up after memory has been emptied and
the cache opened again, while the clock goes back and forth. -/
def plainCalls : Calls Json :=
  [(0, .store "a" (Json.ofNat 1)), (0, .store "b" (Json.ofNat 3)), (1, .store "a" (Json.ofNat 2)),
    (5, .write), (6, .flush), (7, .clearMemory), (2, .lookup "a"), (0, .reopen), (9, .lookup "b"),
    (9, .lookup "c")]

theorem keyDigest_a_ne_b : keyDigest "a" ≠ keyDigest "b" := by decide +kernel

theorem performAll_answers_plain :
    ∃ (c : LayeredCache Json) (s : LayeredState Json), new plainSettings true = .ok c ∧
      (performAll plainSettings plainCalls).run.run ⟨c, ⟨volumeOf "cache", []⟩⟩ =
        (.ok [none, none, none, none, none, none, some (Json.ofNat 2), none, some (Json.ofNat 3),
          none], s) := by
  have hfresh : Fresh (volumeOf "cache") plainSettings.disk.directory :=
    fresh_volumeOf (by decide)
  have hfaults : (⟨volumeOf "cache", []⟩ : Drive).faults = [] := rfl
  have hexpiry : ∀ now call, (now, call) ∈ plainCalls →
      ∀ t, plainSettings.memory.ttl = some t → now.toNat + t.toNat < UInt64.size := by
    have htimes : (plainCalls.all fun e => e.1.toNat < 10) = true := by decide
    intro now call hmem t ht
    have hnow : now.toNat < 10 := of_decide_eq_true (List.all_eq_true.1 htimes _ hmem)
    obtain rfl : 3600000 = t := Option.some.inj ht
    have hbound : 10 + (3600000 : UInt64).toNat < UInt64.size := by decide
    omega
  have hread : ∀ now key v, (now, .store key v) ∈ plainCalls →
      Json.decodeBytes Json.Form.read (bytesOf v) = .ok v := by
    intro now key v hmem
    obtain ⟨n, rfl⟩ : ∃ n, v = Json.ofWord n := by
      simp only [plainCalls, List.mem_cons, Prod.mk.injEq, Call.store.injEq, reduceCtorEq, and_false,
        or_false, List.not_mem_nil] at hmem
      rcases hmem with ⟨-, -, rfl⟩ | ⟨-, -, rfl⟩ | ⟨-, -, rfl⟩
      all_goals exact ⟨_, rfl⟩
    exact Json.decodeBytes_ofWord n
  have hdigests : ∀ a ∈ plainCalls.storedKeys, ∀ b ∈ plainCalls.storedKeys,
      keyDigest a = keyDigest b → a = b := by
    have hkeys : plainCalls.storedKeys = ["a", "b", "a"] := rfl
    simp [hkeys, keyDigest_a_ne_b, keyDigest_a_ne_b.symm]
  obtain ⟨c, hnew⟩ : ∃ c : LayeredCache Json, new plainSettings true = .ok c := ⟨_, rfl⟩
  have hpaced : plainCalls.Paced (max plainSettings.queueCapacity.toNat 1) 0 :=
    ⟨_, rfl, _, rfl, _, rfl, _, rfl, _, rfl, _, rfl, _, rfl, _, rfl, _, rfl, _, rfl, trivial⟩
  obtain ⟨s, hs⟩ :=
    performAll_answers rfl hnew hfresh hfaults hpaced hexpiry hread (by decide) hdigests
  exact ⟨c, s, hnew, hs⟩

end LayeredCache

end CodeGraph.Cache
