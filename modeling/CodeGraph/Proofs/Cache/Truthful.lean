import CodeGraph.Proofs.Cache.Accounting
import CodeGraph.Proofs.Cache.Layered

/-!
# A cache of what can be found out again

Some keys stand for one value each (`Findings.Sound`). A cache that is given no other value under
such a key holds none anywhere, in memory, in the queue or on disk (`LayeredCache.Truthful`), whatever
its bounds, its time to live and what has been dropped on the way. So a lookup of such a key misses or
answers the value of the key (`LayeredCache.Truthful.lookup`).

No total of sizes is too much for a 64-bit word, because at most one value of each key is in one
place and the values of all keys together are not.
-/

namespace CodeGraph.Cache

/-- Keys with what has been found out for them, perhaps more than once. -/
abbrev Findings (V : Type) := List (String × V)

namespace Findings

variable {V : Type} [Json.Form V] {k : Findings V} {key : String} {v : V}

/-- The bytes of all values. -/
def weight (k : Findings V) : Nat :=
  (k.map fun p => (bytesOf p.2).size).sum

/-- The size of the value of a key. -/
def sizeFor (k : Findings V) (key : String) : Nat :=
  ((k.lookup key).map fun v => (bytesOf v).size).getD 0

/-- Each key has one value, which is read back from its bytes, and the bytes of all values can be
counted. -/
structure Sound (k : Findings V) : Prop where
  unique : ∀ key u v, (key, u) ∈ k → (key, v) ∈ k → u = v
  read : ∀ key v, (key, v) ∈ k → Json.decodeBytes Json.Form.read (bytesOf v) = .ok v
  words : k.weight < UInt64.size

theorem Sound.sizeFor_eq (h : k.Sound) (hv : (key, v) ∈ k) : k.sizeFor key = (bytesOf v).size := by
  rcases hlookup : k.lookup key with _ | u
  · rw [List.lookup_eq_none_iff] at hlookup
    simpa using hlookup _ hv
  · obtain ⟨l₁, l₂, hk, -⟩ := List.lookup_eq_some_iff.1 hlookup
    have hu : (key, u) ∈ k := by simp [hk]
    rw [sizeFor, hlookup, h.unique key u v hu hv]
    rfl

/-- The values of all keys are no larger than the sizes for the keys. -/
theorem Sound.sum_sizeFor (h : k.Sound) : ((k.map Prod.fst).map k.sizeFor).sum = k.weight := by
  rw [List.map_map, weight]
  congr 1
  refine List.map_congr_left ?_
  intro p hp
  exact h.sizeFor_eq hp

theorem Sound.size_le (h : k.Sound) (hv : (key, v) ∈ k) : (bytesOf v).size ≤ k.weight := by
  rw [← h.sum_sizeFor, ← sum_erase_add (List.mem_map_of_mem (f := Prod.fst) hv), h.sizeFor_eq hv]
  exact Nat.le_add_left ..

/-- The size of a value is a 64-bit word. -/
theorem Sound.toNat_size (h : k.Sound) (hv : (key, v) ∈ k) :
    (UInt64.ofNat (bytesOf v).size).toNat = (bytesOf v).size :=
  UInt64.toNat_ofNat_of_lt' (Nat.lt_of_le_of_lt (h.size_le hv) h.words)

end Findings

namespace Shelf

variable {S : Shelf} {s : DiskState} {m : Content} {now : UInt64} {key : String}
  {content : ByteArray}

/-- A value that can be counted beside those of other keys is refused, or it displaces others. -/
theorem Accounted.set_beside (h : S.Accounted s m) {bound : Nat}
    (hothers : DiskIndex.Fits (m.without [keyDigest key]).indexed bound)
    (hword : bound + content.size < UInt64.size) :
    (DiskCache.set now key content).run.run s = (.ok false, s) ∨
      ∃ s' ds sc, (DiskCache.set now key content).run.run s = (.ok true, s') ∧ sc.key = key ∧
        S.Accounted s' ((m.without ds).store (keyDigest key) (sc, content)) := by
  have hlength : content.size < UInt64.size := by omega
  by_cases hlarge : s.cache.maxSize < UInt64.ofNat content.size
  · exact .inl (DiskCache.set_refused hlarge)
  · right
    obtain ⟨s₁, hensure, h₁, hseeded, -, hmax⟩ := h.run_ensureIndex
    obtain ⟨hexact, hget⟩ := h₁.settled.index hseeded
    rcases DiskIndex.reserve_cases (d := keyDigest key)
        (e := ⟨key, now, UInt64.ofNat content.size⟩) hexact (UInt64.not_lt.1 hlarge) with
      ⟨hover, -⟩ | ⟨victims, index, hreserve, -, -, -, -⟩
    · have hweight : (s₁.cache.index.remove (keyDigest key)).weight ≤ bound := by
        refine hothers.weight_le ?_
        intro d
        rw [DiskIndex.get?_remove, hget, Content.indexed_without]
        simp only [List.mem_singleton]
      rw [UInt64.toNat_ofNat_of_lt' hlength] at hover
      omega
    · obtain ⟨s', hrun, haccounted, -, -⟩ :=
        h₁.run_set_reserved hensure hseeded hlength hlarge hmax rfl hreserve
      exact ⟨s', _, _, hrun, rfl, haccounted⟩

end Shelf

namespace LayeredCache

variable {V : Type} [Json.Form V] {k : Findings V} {dir : String} {s s' : LayeredState V}
  {side : DiskSide} {now : UInt64} {key : String} {v : V} {place : Option String}

/-- Memory holds nothing but values of their keys. -/
structure TruthfulMemory (k : Findings V) (c : MemoryCache V) : Prop where
  consistent : c.Consistent
  entry : ∀ e ∈ c.entries, (e.key, e.value) ∈ k ∧ e.size = UInt64.ofNat (bytesOf e.value).size

/-- The directory holds nothing but the bytes of values of their keys. -/
structure TruthfulShelf (k : Findings V) (S : Shelf) (s : DiskState) (m : Content) : Prop where
  accounted : S.Accounted s m
  content : ∀ d p, m d = some p → ∃ v, (p.1.key, v) ∈ k ∧ p.2 = bytesOf v

/-- The disk layer of a directory holds nothing but values of their keys. -/
def TruthfulDisk (k : Findings V) (dir : String) (s : DiskState) : Prop :=
  ∃ S m, S.path = dir ∧ TruthfulShelf k S s m

/-- A cache that holds nothing but values of their keys, its directory if it is on disk at all. -/
structure Truthful (k : Findings V) (place : Option String) (s : LayeredState V) : Prop where
  memory : TruthfulMemory k s.cache.memory
  queue : ∀ side, s.cache.disk = some side →
    ∀ w ∈ side.queue, ∃ v, (w.key, v) ∈ k ∧ w.content = bytesOf v
  disk : ∀ side, s.cache.disk = some side →
    ∃ dir, place = some dir ∧ TruthfulDisk k dir ⟨side.cache, s.drive⟩

/-! ## Memory -/

namespace TruthfulMemory

variable {c : MemoryCache V}

theorem new (k : Findings V) (settings : MemorySettings) : TruthfulMemory k (.new settings) :=
  ⟨MemoryCache.consistent_new settings, fun e he => by cases he⟩

theorem get (h : TruthfulMemory k c) (now : UInt64) (key : String) :
    TruthfulMemory k (c.get now key).2 :=
  ⟨h.consistent.get now key,
    fun e he => h.entry e ((MemoryCache.mem_of_get c now key).2 e he)⟩

/-- The value of a key is stored in memory or left out. -/
theorem exists_set (h : TruthfulMemory k c) (hk : k.Sound) (hv : (key, v) ∈ k) (now : UInt64)
    (hexpiry : ∀ t, c.ttl = some t → now.toNat + t.toNat < UInt64.size) :
    ∃ stored c', c.set now key v (UInt64.ofNat (bytesOf v).size) = some (stored, c') ∧
      TruthfulMemory k c' ∧ c'.ttl = c.ttl := by
  have hothers : MemoryCache.total (c.entries.filter fun e => e.key != key) + k.sizeFor key ≤
      ((k.map Prod.fst).map k.sizeFor).sum := by
    refine sum_others_add_le h.consistent.nodup ?_ (List.mem_map_of_mem (f := Prod.fst) hv)
    intro e he
    obtain ⟨hvalue, hsize⟩ := h.entry e he
    rw [hsize, hk.toNat_size hvalue, hk.sizeFor_eq hvalue]
    exact ⟨List.mem_map_of_mem (f := Prod.fst) hvalue, Nat.le_refl _⟩
  rw [hk.sum_sizeFor, hk.sizeFor_eq hv] at hothers
  have hroom : MemoryCache.total (c.entries.filter fun e => e.key != key) +
      (UInt64.ofNat (bytesOf v).size).toNat < UInt64.size := by
    rw [hk.toNat_size hv]
    exact Nat.lt_of_le_of_lt hothers hk.words
  obtain ⟨stored, c', hset⟩ : ∃ stored c',
      c.set now key v (UInt64.ofNat (bytesOf v).size) = some (stored, c') :=
    MemoryCache.exists_set h.consistent hexpiry hroom
  refine ⟨stored, c', hset, ⟨h.consistent.set hset, ?_⟩, MemoryCache.ttl_set hset⟩
  intro e he
  rcases MemoryCache.mem_of_set hset e he with ⟨rfl, rfl, hsize⟩ | ⟨he, -⟩
  · exact ⟨hv, hsize⟩
  · exact h.entry e he

end TruthfulMemory

/-! ## The disk -/

namespace TruthfulDisk

variable {s s' : DiskState}

/-- The directory is opened anew with other settings. -/
theorem reopen (h : TruthfulDisk k dir s) {settings : DiskSettings}
    (hdir : settings.directory = dir) : TruthfulDisk k dir ⟨DiskCache.new settings, s.drive⟩ := by
  obtain ⟨S, m, hpath, haccounted, hcontent⟩ := h
  exact ⟨S, m, hpath, haccounted.reopen (hdir.trans hpath.symm), hcontent⟩

/-- What is found on disk under a key is the bytes of its value, and nothing changes. -/
theorem get (h : TruthfulDisk k dir s) (hk : k.Sound) (hv : (key, v) ∈ k) :
    ∃ found, (DiskCache.get key).run.run s = (.ok found, s) ∧
      ∀ bytes, found = some bytes → bytes = bytesOf v := by
  obtain ⟨S, m, -, haccounted, hcontent⟩ := h
  refine ⟨m.answer key, haccounted.settled.run_get key, ?_⟩
  intro bytes hfound
  rw [Content.answer] at hfound
  split at hfound
  · next p hp =>
    obtain ⟨hkey, hbytes⟩ := Option.ite_none_right_eq_some.1 hfound
    obtain ⟨u, hu, hvalue⟩ := hcontent _ p hp
    rw [← Option.some.inj hbytes, hvalue, hk.unique key u v (hkey ▸ hu) hv]
  · cases hfound

/-- Storing the value of a key answers and leaves nothing but values of their keys. -/
theorem set (h : TruthfulDisk k dir s) (hk : k.Sound) (hv : (key, v) ∈ k) (now : UInt64) :
    ∃ kept s', (DiskCache.set now key (bytesOf v)).run.run s = (.ok kept, s') ∧
      TruthfulDisk k dir s' := by
  obtain ⟨S, m, hpath, haccounted, hcontent⟩ := h
  have hkey : key ∈ k.map Prod.fst := List.mem_map_of_mem (f := Prod.fst) hv
  have hothers : DiskIndex.Fits (m.without [keyDigest key]).indexed
      (((k.map Prod.fst).erase key).map k.sizeFor).sum := by
    refine Content.fits k.sizeFor ((k.map Prod.fst).erase key) ?_ (Nat.le_refl _)
    intro d p hp
    obtain ⟨hne, hp⟩ := Option.ite_none_left_eq_some.1 hp
    obtain ⟨u, hu, hbytes⟩ := hcontent d p hp
    obtain ⟨hdigest, hsize⟩ := haccounted.own d p hp
    refine ⟨hdigest, (List.mem_erase_of_ne ?_).2 (List.mem_map_of_mem (f := Prod.fst) hu), ?_⟩
    · rintro hsame
      exact hne (List.mem_singleton.2 (hdigest.symm.trans (congrArg keyDigest hsame)))
    · rw [hsize, hbytes, hk.sizeFor_eq hu]
  have hword : (((k.map Prod.fst).erase key).map k.sizeFor).sum + (bytesOf v).size <
      UInt64.size := by
    rw [← hk.sizeFor_eq hv, sum_erase_add hkey, hk.sum_sizeFor]
    exact hk.words
  rcases haccounted.set_beside hothers hword with hrun | ⟨s', ds, sc, hrun, hsc, haccounted'⟩
  · exact ⟨false, s, hrun, S, m, hpath, haccounted, hcontent⟩
  · refine ⟨true, s', hrun, S, _, hpath, haccounted', ?_⟩
    intro d p hp
    rw [Content.store] at hp
    split at hp
    · cases hp
      exact ⟨v, hsc ▸ hv, rfl⟩
    · rw [Content.without] at hp
      exact hcontent d p (Option.ite_none_left_eq_some.1 hp).2

end TruthfulDisk

/-! ## Both layers -/

namespace Truthful

/-- A state whose memory layer has changed, and whose disk side has not. -/
theorem of_memory (h : Truthful k place s) (hmemory : TruthfulMemory k s'.cache.memory)
    (hdisk : s'.cache.disk = s.cache.disk) (hdrive : s'.drive = s.drive) : Truthful k place s' :=
  ⟨hmemory, by rw [hdisk]; exact h.queue, by rw [hdisk, hdrive]; exact h.disk⟩

/-- A cache that has just been opened, whatever its settings. -/
theorem of_new {settings : Settings} {running : Bool} {c : LayeredCache V} {drive : Drive}
    (hnew : LayeredCache.new settings running = .ok c)
    (hdisk : settings.useDisk = true →
      ∃ dir, place = some dir ∧ TruthfulDisk k dir ⟨DiskCache.new settings.disk, drive⟩) :
    Truthful k place ⟨c, drive⟩ := by
  rw [LayeredCache.new] at hnew
  split at hnew
  · cases hnew
    exact ⟨.new k _, fun side hside => (by cases hside), fun side hside => (by cases hside)⟩
  next huse =>
  split at hnew
  · cases hnew
  split at hnew
  · cases hnew
  cases hnew
  refine ⟨.new k _, ?_, ?_⟩
  · intro side hside w hw
    cases hside
    cases hw
  · intro side hside
    cases hside
    exact hdisk (by simpa using huse)

/-- A lookup on disk leaves everything as it was. -/
theorem run_get (h : Truthful k place s) (hk : k.Sound) (hv : (key, v) ∈ k)
    (hdisk : s.cache.disk = some side) {r : Except CacheError (Option ByteArray)} {ds : DiskState}
    (hrun : (DiskCache.get key).run.run ⟨side.cache, s.drive⟩ = (r, ds)) :
    withDisk s { side with cache := ds.cache } ds.drive = s ∧
      ∀ bytes, r = .ok (some bytes) → bytes = bytesOf v := by
  obtain ⟨dir, -, htruthful⟩ := h.disk side hdisk
  obtain ⟨found, hget, hfound⟩ := htruthful.get hk hv
  rw [hget] at hrun
  cases hrun
  refine ⟨by rw [withDisk, ← hdisk], ?_⟩
  intro bytes hbytes
  exact hfound bytes (Except.ok.inj hbytes)

/-- **A lookup misses or answers the value of the key**, and it changes no file. -/
theorem lookup (h : Truthful k place s) (hk : k.Sound) (hv : (key, v) ∈ k) (now : UInt64)
    (hexpiry : ∀ t, s.cache.memory.ttl = some t → now.toNat + t.toNat < UInt64.size) :
    ∃ answer s', (lookup now key).run.run s = (.ok answer, s') ∧
      (∀ u, answer = some u → u = v) ∧ Truthful k place s' ∧ s'.drive = s.drive ∧
      s'.cache.memory.ttl = s.cache.memory.ttl := by
  have hmemory := h.memory.get now key
  have httl := MemoryCache.ttl_get s.cache.memory now key
  have hread : ∀ bytes u, bytes = bytesOf v →
      Json.decodeBytes Json.Form.read bytes = .ok u → u = v := by
    rintro bytes u rfl hdecode
    rw [hk.read key v hv] at hdecode
    exact (Except.ok.inj hdecode).symm
  have hreload := hmemory.exists_set hk hv now (by rw [httl]; exact hexpiry)
  rcases hlookup : (LayeredCache.lookup now key).run.run s with ⟨r, s'⟩
  cases looked_of_run hlookup with
  | @inMemory u memory _ hget halike =>
    obtain ⟨e, he, hkey, rfl⟩ := (MemoryCache.mem_of_get s.cache.memory now key).1 u (by rw [hget])
    rw [hget] at hmemory httl
    refine ⟨_, s', rfl, ?_, h.of_memory (halike.memory.symm ▸ hmemory) halike.disk halike.drive,
      halike.drive, by rw [halike.memory]; exact httl⟩
    rintro u hu
    cases hu
    exact hk.unique key _ v (hkey ▸ (h.memory.entry e he).1) hv
  | @noDisk memory _ hget hdisk halike =>
    rw [hget] at hmemory httl
    exact ⟨_, s', rfl, by simp,
      h.of_memory (halike.memory.symm ▸ hmemory) halike.disk halike.drive, halike.drive,
      by rw [halike.memory]; exact httl⟩
  | @missing memory side r ds _ hget hdisk hrun hr halike =>
    obtain ⟨hsame, -⟩ := h.run_get hk hv hdisk hrun
    rw [hget] at hmemory httl
    have hdrive := halike.drive.trans (congrArg (·.drive) hsame)
    exact ⟨_, s', rfl, by simp, h.of_memory (halike.memory.symm ▸ hmemory)
      (halike.disk.trans (congrArg (·.cache.disk) hsame)) hdrive, hdrive,
      by rw [halike.memory]; exact httl⟩
  | @loaded memory memory' side bytes u ds stored _ hget hdisk hrun hdecode hset halike =>
    obtain ⟨hsame, hbytes⟩ := h.run_get hk hv hdisk hrun
    have hbytes := hbytes bytes rfl
    obtain rfl := hread bytes u hbytes hdecode
    obtain ⟨stored', c', hset', hmemory', httl'⟩ := hreload
    rw [hget, ← hbytes, hset] at hset'
    cases hset'
    rw [hget] at httl httl'
    have hdrive := halike.drive.trans (congrArg (·.drive) hsame)
    exact ⟨_, s', rfl, by simp, h.of_memory (halike.memory.symm ▸ hmemory')
      (halike.disk.trans (congrArg (·.cache.disk) hsame)) hdrive, hdrive,
      by rw [halike.memory]; exact httl'.trans httl⟩
  | @overflow memory side bytes u ds _ hget hdisk hrun hdecode hset =>
    obtain ⟨-, hbytes⟩ := h.run_get hk hv hdisk hrun
    have hbytes := hbytes bytes rfl
    obtain rfl := hread bytes u hbytes hdecode
    obtain ⟨stored, c', hset', -⟩ := hreload
    rw [hget, ← hbytes, hset] at hset'
    cases hset'

/-- Storing the value of a key succeeds, and it changes no file. -/
theorem store (h : Truthful k place s) (hk : k.Sound) (hv : (key, v) ∈ k) (now : UInt64)
    (hexpiry : ∀ t, s.cache.memory.ttl = some t → now.toNat + t.toNat < UInt64.size) :
    ∃ s', (store now key v).run.run s = (.ok (), s') ∧ Truthful k place s' ∧ s'.drive = s.drive ∧
      s'.cache.memory.ttl = s.cache.memory.ttl := by
  obtain ⟨stored, memory, hset, hmemory, httl⟩ := h.memory.exists_set hk hv now hexpiry
  rw [run_store, hset]
  refine ⟨_, rfl, ⟨hmemory, ?_, ?_⟩, rfl, httl⟩
  · intro side hside w hw
    obtain ⟨side', hside', rfl⟩ := Option.map_eq_some_iff.1 hside
    rw [DiskSide.enqueue] at hw
    split at hw
    · rcases List.mem_append.1 hw with hw | hw
      · exact h.queue side' hside' w hw
      · obtain rfl := List.mem_singleton.1 hw
        exact ⟨v, hv, rfl⟩
    · exact h.queue side' hside' w hw
  · intro side hside
    obtain ⟨side', hside', rfl⟩ := Option.map_eq_some_iff.1 hside
    have hcache : (DiskSide.enqueue side' ⟨key, bytesOf v⟩).cache = side'.cache := by
      rw [DiskSide.enqueue]
      split <;> rfl
    rw [hcache]
    exact h.disk side' hside'

/-- Carrying out a write leaves nothing but values of their keys. -/
theorem write (h : Truthful k place s) (hk : k.Sound) (now : UInt64) :
    ∃ s', (drainOne now).run.run s = (.ok (), s') ∧ Truthful k place s' ∧
      s'.cache.memory = s.cache.memory ∧
      (s'.drive = s.drive ∨ ∃ side, s'.cache.disk = some side) := by
  rcases hdisk : s.cache.disk with _ | side
  · exact ⟨s, run_drainOne_none hdisk, h, rfl, .inl rfl⟩
  rcases hqueue : side.queue with _ | ⟨w, rest⟩
  · exact ⟨s, run_drainOne_nil hdisk hqueue, h, rfl, .inl rfl⟩
  obtain ⟨v, hv, hbytes⟩ := h.queue side hdisk w (hqueue ▸ List.mem_cons_self ..)
  obtain ⟨dir, hplace, htruthful⟩ := h.disk side hdisk
  obtain ⟨kept, ds, hset, htruthful'⟩ := htruthful.set hk hv now
  rw [← hbytes] at hset
  refine ⟨_, run_drainOne hdisk hqueue hset, ⟨h.memory, ?_, ?_⟩, rfl, .inr ⟨_, rfl⟩⟩
  · intro side' hside w' hw'
    cases hside
    exact h.queue side hdisk w' (hqueue ▸ List.mem_cons_of_mem _ hw')
  · intro side' hside
    cases hside
    exact ⟨dir, hplace, htruthful'⟩

/-- Losing waiting writes leaves nothing but values of their keys. -/
theorem lose (h : Truthful k place s) (hdisk : s.cache.disk = some side)
    {queue : List PendingWrite} (hqueue : queue.Sublist side.queue) :
    Truthful k place (withDisk s { side with queue } s.drive) := by
  refine ⟨h.memory, ?_, ?_⟩
  · intro side' hside w hw
    cases hside
    exact h.queue side hdisk w (hqueue.subset hw)
  · intro side' hside
    cases hside
    exact h.disk side hdisk

end Truthful

end LayeredCache

end CodeGraph.Cache
