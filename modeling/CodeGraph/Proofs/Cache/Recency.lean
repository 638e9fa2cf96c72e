import CodeGraph.Proofs.Cache.Content
import CodeGraph.Proofs.Cache.Layered
import CodeGraph.Proofs.Cache.Thinning

/-!
# How recent an answer is

A lookup may be answered by a value that has been replaced: the value stored last may still wait for
the disk, or its write may have been dropped or have failed, while memory has let it go
(`LayeredCache.lookup_superseded`). What holds in every run, whatever faults the disk meets, is that
an answer was once stored under the key, and that it is the value stored last unless the key has been
loaded from the disk since, at a time when the last write had not been the one of that value
(`LayeredCache.lookup_answers`).

A run is told by its history of stored values, lookups answered from the disk and writes carried out,
the latest first. The invariant says of every value in memory what is said of an answer, of every
value that waits that it was stored, and of every value on disk that it was stored and is the one
written last (`LayeredCache.Sound`).
-/

namespace CodeGraph.Cache

open DiskCache (valueEnding)

/-- What happens to a cache. -/
inductive Event (V : Type) where
  /-- A value has been stored. -/
  | stored (key : String) (v : V)
  /-- A lookup has been answered from the disk. -/
  | loaded (key : String)
  /-- A write has been carried out; `done` tells whether the disk layer has answered that it stored
  the value. -/
  | written (key : String) (content : ByteArray) (done : Bool)

namespace Event

variable {V : Type}

/-- The value stored last under a key. -/
def lastStored? (key : String) : List (Event V) → Option V
  | [] => none
  | .stored k v :: h => if k = key then some v else lastStored? key h
  | .loaded _ :: h | .written .. :: h => lastStored? key h

/-- What the last write to the entry of a digest has stored, unless it has failed. -/
def lastWritten? (digest : String) : List (Event V) → Option ByteArray
  | [] => none
  | .written k content done :: h =>
    if keyDigest k = digest then if done then some content else none else lastWritten? digest h
  | .loaded _ :: h | .stored .. :: h => lastWritten? digest h

/-- Since a value was stored last under a key, the key has not been loaded, or the last write had been
the one of that value when it was. -/
def UpToDate [Json.Form V] (key : String) : List (Event V) → Prop
  | [] => True
  | .stored k _ :: h => k = key ∨ UpToDate key h
  | .loaded k :: h =>
    if k = key then
      ∃ u, lastStored? key h = some u ∧ lastWritten? (keyDigest key) h = some (bytesOf u)
    else UpToDate key h
  | .written .. :: h => UpToDate key h

end Event

/-- A value that is another one or what is read from its bytes. -/
def Comes {V : Type} [Json.Form V] (u v : V) : Prop :=
  v = u ∨ Json.decodeBytes Json.Form.read (bytesOf u) = .ok v

/-- What an answer for a key may be: a value that was stored, and the one stored last if that is what
was loaded last. -/
structure Answer {V : Type} [Json.Form V] (h : List (Event V)) (key : String) (v : V) : Prop where
  stored : ∃ k u, .stored k u ∈ h ∧ keyDigest k = keyDigest key ∧ Comes u v
  last : Event.UpToDate key h → ∃ u, Event.lastStored? key h = some u ∧ Comes u v

section Answers

variable {V : Type} [Json.Form V] {h : List (Event V)} {key : String}

/-- An answer stays one as long as its key is neither stored nor loaded. -/
theorem Answer.append {v : V} (ha : Answer h key v) (events : List (Event V))
    (hstored : ∀ u, .stored key u ∉ events) (hloaded : .loaded key ∉ events) :
    Answer (events ++ h) key v := by
  induction events with
  | nil => exact ha
  | cons e events ih =>
    obtain ⟨⟨k, u, hmem, hcomes⟩, hlast⟩ := ih (fun u hu => hstored u (List.mem_cons_of_mem _ hu))
      fun hmem => hloaded (List.mem_cons_of_mem _ hmem)
    refine ⟨⟨k, u, List.mem_cons_of_mem _ hmem, hcomes⟩, fun hdate => ?_⟩
    cases e with
    | stored k' u' =>
      have hne : k' ≠ key := fun hkey => hstored u' (hkey ▸ List.mem_cons_self ..)
      obtain ⟨u, hu, hcomes⟩ := hlast (hdate.resolve_left hne)
      exact ⟨u, (if_neg hne).trans hu, hcomes⟩
    | loaded k' =>
      have hne : k' ≠ key := fun hkey => hloaded (hkey ▸ List.mem_cons_self ..)
      rw [List.cons_append, Event.UpToDate, if_neg hne] at hdate
      exact hlast hdate
    | written k' content done => exact hlast hdate

theorem answer_stored (h : List (Event V)) (key : String) (v : V) :
    Answer (.stored key v :: h) key v :=
  ⟨⟨key, v, List.mem_cons_self .., rfl, .inl rfl⟩, fun _ => ⟨v, if_pos rfl, .inl rfl⟩⟩

end Answers

namespace LayeredCache

variable {V : Type} [Json.Form V] {start s s' : LayeredState V} {h : List (Event V)}
  {now : UInt64} {key : String}

/-- The event of storing a value, unless that fails. -/
def stores (key : String) (v : V) : Except CacheError Unit → List (Event V)
  | .ok () => [.stored key v]
  | .error _ => []

/-- The event of a lookup, if memory has no answer and there is one. -/
def loads (s : LayeredState V) (now : UInt64) (key : String) :
    Except CacheError (Option V) → List (Event V)
  | .ok (some _) => if (s.cache.memory.get now key).1.isNone then [.loaded key] else []
  | .ok none | .error _ => []

/-- The event of carrying out the first write, if there is one. -/
def writes (s : LayeredState V) (now : UInt64) : List (Event V) :=
  match s.cache.disk with
  | none => []
  | some side =>
    match side.queue with
    | [] => []
    | w :: _ =>
      match ((DiskCache.set now w.key w.content).run.run ⟨side.cache, s.drive⟩).1 with
      | .ok done => [.written w.key w.content done]
      | .error _ => [.written w.key w.content false]

/-- The runs of a cache with their histories: values are stored and looked up, and waiting writes
carried out, in any order and at any times, whether or not they fail. -/
inductive Reaches (start : LayeredState V) : List (Event V) → LayeredState V → Prop
  | start : Reaches start [] start
  | store {h : List (Event V)} {s s' : LayeredState V} {now : UInt64} {key : String} {v : V}
      {r : Except CacheError Unit} : Reaches start h s → (store now key v).run.run s = (r, s') →
      Reaches start (stores key v r ++ h) s'
  | lookup {h : List (Event V)} {s s' : LayeredState V} {now : UInt64} {key : String}
      {r : Except CacheError (Option V)} : Reaches start h s →
      (lookup now key).run.run s = (r, s') → Reaches start (loads s now key r ++ h) s'
  | write {h : List (Event V)} {s s' : LayeredState V} {now : UInt64}
      {r : Except CacheError Unit} : Reaches start h s → (drainOne now).run.run s = (r, s') →
      Reaches start (writes s now ++ h) s'

/-! ## The disk -/

variable {S : Shelf} {drive : Drive} {side : DiskSide}

/-- The values that wait for the disk and those on it have been stored, and a value on it is the one
written last. -/
structure SoundDisk (S : Shelf) (h : List (Event V)) (drive : Drive) (side : DiskSide) : Prop where
  ready : S.Ready ⟨side.cache, drive⟩
  queue : ∀ w ∈ side.queue, ∃ u, .stored w.key u ∈ h ∧ w.content = bytesOf u
  stored : ∀ d content, IsDigest d → S.fileAt drive.volume d valueEnding = some content →
    ∃ k u, .stored k u ∈ h ∧ keyDigest k = d ∧ content = bytesOf u
  last : ∀ d content written, IsDigest d → S.fileAt drive.volume d valueEnding = some content →
    Event.lastWritten? d h = some written → content = written

namespace SoundDisk

/-- Nothing is lost with events that are no writes. -/
theorem cons (hs : SoundDisk S h drive side) {e : Event V}
    (he : ∀ k content done, e ≠ .written k content done) : SoundDisk S (e :: h) drive side := by
  have hlast : ∀ d, Event.lastWritten? d (e :: h) = Event.lastWritten? d h := fun d => by
    cases e with
    | stored => rfl
    | loaded => rfl
    | written k content done => exact absurd rfl (he k content done)
  refine ⟨hs.ready, fun w hw => ?_, fun d content hd hfile => ?_,
    fun d content written hd hfile hwritten => hs.last d content written hd hfile (hlast d ▸ hwritten)⟩
  · obtain ⟨u, hu, hcontent⟩ := hs.queue w hw
    exact ⟨u, List.mem_cons_of_mem _ hu, hcontent⟩
  · obtain ⟨k, u, hu, hstored⟩ := hs.stored d content hd hfile
    exact ⟨k, u, List.mem_cons_of_mem _ hu, hstored⟩

theorem thinned (hs : SoundDisk S h drive side) {ds : DiskState}
    (hthin : S.Thinned ⟨side.cache, drive⟩ ds) :
    SoundDisk S h ds.drive { side with cache := ds.cache } :=
  ⟨hthin.ready, hs.queue,
    fun d content hd hfile => hs.stored d content hd (hthin.thinner d content hd hfile),
    fun d content written hd hfile =>
      hs.last d content written hd (hthin.thinner d content hd hfile)⟩

theorem answer (hs : SoundDisk S h drive side) {bytes : ByteArray} {v : V}
    (hfile : S.fileAt drive.volume (keyDigest key) valueEnding = some bytes)
    (hdecode : Json.decodeBytes Json.Form.read bytes = .ok v) : Answer (.loaded key :: h) key v := by
  have hd := isDigest_keyDigest key
  refine ⟨?_, fun hdate => ?_⟩
  · obtain ⟨k, u, hmem, hdigest, rfl⟩ := hs.stored _ bytes hd hfile
    exact ⟨k, u, List.mem_cons_of_mem _ hmem, hdigest, .inr hdecode⟩
  · rw [Event.UpToDate, if_pos rfl] at hdate
    obtain ⟨u, hlast, hwritten⟩ := hdate
    obtain rfl := hs.last _ bytes _ hd hfile hwritten
    exact ⟨u, hlast, .inr hdecode⟩

theorem enqueue (hs : SoundDisk S h drive side) (v : V) :
    SoundDisk S (.stored key v :: h) drive (DiskSide.enqueue side ⟨key, bytesOf v⟩) := by
  have hcons := hs.cons (e := .stored key v) (by simp)
  rw [DiskSide.enqueue]
  split
  · refine ⟨hcons.ready, fun w hw => ?_, hcons.stored, hcons.last⟩
    rcases List.mem_append.1 hw with hw | hw
    · exact hcons.queue w hw
    · obtain rfl := List.mem_singleton.1 hw
      exact ⟨v, List.mem_cons_self .., rfl⟩
  · exact hcons

theorem mem_queue_afterWrite {w : PendingWrite} {rest : List PendingWrite} {cache : DiskCache}
    {r : Except CacheError Bool} (hw : w ∈ (side.afterWrite rest cache r).queue) : w ∈ rest := by
  rcases r with e | b
  · rw [DiskSide.afterWrite] at hw
    split at hw
    · cases hw
    · exact hw
  · exact hw

theorem cache_afterWrite {rest : List PendingWrite} {cache : DiskCache}
    {r : Except CacheError Bool} : (side.afterWrite rest cache r).cache = cache := by
  rcases r with e | b
  · rw [DiskSide.afterWrite]
    split <;> rfl
  · rfl

/-- Carrying out a write, whatever comes of it. -/
theorem afterWrite (hs : SoundDisk S h drive side) {w : PendingWrite} {rest : List PendingWrite}
    (hqueue : side.queue = w :: rest) {r : Except CacheError Bool} {ds : DiskState}
    (hrun : (DiskCache.set now w.key w.content).run.run ⟨side.cache, drive⟩ = (r, ds)) {done : Bool}
    (hdone : done = true → r = .ok true) :
    SoundDisk S (.written w.key w.content done :: h) ds.drive (side.afterWrite rest ds.cache r) := by
  have hset := Shelf.stored_set now w.key w.content _ hs.ready
  rw [hrun] at hset
  obtain ⟨u, hu, hcontent⟩ := hs.queue w (hqueue ▸ List.mem_cons_self ..)
  refine ⟨?_, fun w' hw' => ?_, fun d content hd hfile => ?_,
    fun d content written hd hfile hwritten => ?_⟩
  · rw [cache_afterWrite]
    exact hset.ready
  · obtain ⟨u', hu', hcontent'⟩ :=
      hs.queue w' (hqueue ▸ List.mem_cons_of_mem _ (mem_queue_afterWrite hw'))
    exact ⟨u', List.mem_cons_of_mem _ hu', hcontent'⟩
  · rcases hset.replaced.value d content hd hfile with hfile | ⟨rfl, rfl⟩
    · obtain ⟨k, u', hu', hstored⟩ := hs.stored d content hd hfile
      exact ⟨k, u', List.mem_cons_of_mem _ hu', hstored⟩
    · exact ⟨w.key, u, List.mem_cons_of_mem _ hu, rfl, hcontent⟩
  · rw [Event.lastWritten?] at hwritten
    split at hwritten
    · next hdigest =>
      simp only [Option.ite_none_right_eq_some, Option.some.injEq] at hwritten
      obtain ⟨hd', rfl⟩ := hwritten
      exact hset.value (hdone hd') content (hdigest ▸ hfile)
    -- Another entry has been written, and this one has its value and its last write still.
    · next hdigest =>
      rcases hset.replaced.value d content hd hfile with hfile | ⟨hsame, -⟩
      · exact hs.last d content written hd hfile hwritten
      · exact absurd hsame.symm hdigest

end SoundDisk

/-! ## Runs -/

/-- Every value in memory is an answer for its key, and the disk is sound. -/
structure Sound (S : Shelf) (h : List (Event V)) (s : LayeredState V) : Prop where
  memory : ∀ e ∈ s.cache.memory.entries, Answer h e.key e.value
  disk : ∀ side, s.cache.disk = some side → SoundDisk S h s.drive side

namespace Sound

theorem of_alike (hs : Sound S h s) (halike : Alike s s') : Sound S h s' :=
  ⟨halike.memory.symm ▸ hs.memory, by rw [halike.disk, halike.drive]; exact hs.disk⟩

theorem withMemory (hs : Sound S h s) {memory : MemoryCache V}
    (hmemory : ∀ e ∈ memory.entries, Answer h e.key e.value) :
    Sound S h (LayeredCache.withMemory s memory) :=
  ⟨hmemory, hs.disk⟩

theorem withDisk (hs : Sound S h s) (hdisk : SoundDisk S h drive side) :
    Sound S h (LayeredCache.withDisk s side drive) := by
  refine ⟨hs.memory, fun side' hside => ?_⟩
  cases hside
  exact hdisk

theorem store (hs : Sound S h s) {v : V} {r : Except CacheError Unit}
    (hrun : (store now key v).run.run s = (r, s')) : Sound S (stores key v r ++ h) s' := by
  rw [run_store] at hrun
  rcases hset : s.cache.memory.set now key v (UInt64.ofNat (bytesOf v).size) with _ | ⟨stored, memory⟩
  · rw [hset] at hrun
    cases hrun
    exact hs
  · rw [hset] at hrun
    cases hrun
    refine ⟨fun e he => ?_, fun side hside => ?_⟩
    · rcases MemoryCache.mem_of_set hset e he with ⟨hkey, hvalue, -⟩ | ⟨he, hne⟩
      · rw [hkey, hvalue]
        exact answer_stored h key v
      · exact (hs.memory e he).append [.stored key v] (by simp [hne]) (by simp)
    · obtain ⟨side', hside', rfl⟩ := Option.map_eq_some_iff.1 hside
      exact (hs.disk side' hside').enqueue v

/-- A value loaded from the disk is an answer, in memory too. -/
theorem loaded (hs : Sound S h s) {bytes : ByteArray} {v : V} {ds : DiskState}
    (hdisk : s.cache.disk = some side)
    (hload : (DiskCache.get key).run.run ⟨side.cache, s.drive⟩ = (.ok (some bytes), ds))
    (hdecode : Json.decodeBytes Json.Form.read bytes = .ok v) {memory memory' : MemoryCache V}
    (hsub : ∀ e ∈ memory.entries, e ∈ s.cache.memory.entries) {stored : Bool}
    (hset : memory.set now key v (UInt64.ofNat bytes.size) = some (stored, memory')) :
    Sound S (.loaded key :: h) (LayeredCache.withMemory
        (LayeredCache.withDisk s { side with cache := ds.cache } ds.drive) memory') ∧
      Answer (.loaded key :: h) key v := by
  have hsound := hs.disk side hdisk
  have hthin := (Shelf.thins_get key _ hsound.ready).1
  rw [hload] at hthin
  have hanswer : Answer (.loaded key :: h) key v :=
    hsound.answer (Shelf.fileAt_of_get hsound.ready hload) hdecode
  refine ⟨⟨fun e he => ?_, fun side' hside => ?_⟩, hanswer⟩
  · rcases MemoryCache.mem_of_set hset e he with ⟨hkey, hvalue, -⟩ | ⟨he, hne⟩
    · rw [hkey, hvalue]
      exact hanswer
    · exact (hs.memory e (hsub e he)).append [.loaded key] (by simp) (by simp [hne])
  · cases hside
    exact (hsound.thinned hthin).cons (by simp)

/-- A lookup is answered as it should, and what it leaves is sound. -/
theorem lookup (hs : Sound S h s) {r : Except CacheError (Option V)}
    (hrun : (lookup now key).run.run s = (r, s')) :
    Sound S (loads s now key r ++ h) s' ∧
      ∀ v, r = .ok (some v) → Answer (loads s now key r ++ h) key v := by
  have hget := MemoryCache.mem_of_get s.cache.memory now key
  have hdisk : ∀ side, s.cache.disk = some side → ∀ (r : Except CacheError (Option ByteArray)) ds,
      (DiskCache.get key).run.run ⟨side.cache, s.drive⟩ = (r, ds) →
      SoundDisk S h ds.drive { side with cache := ds.cache } := fun side hside r ds hload => by
    have hthin := (Shelf.thins_get key _ (hs.disk side hside).ready).1
    rw [hload] at hthin
    exact (hs.disk side hside).thinned hthin
  cases looked_of_run hrun with
  | @inMemory v memory _ hmem halike =>
    rw [hmem] at hget
    obtain ⟨e, he, hkey, hvalue⟩ := hget.1 v rfl
    have hnone : loads s now key (.ok (some v)) = [] := by simp [loads, hmem]
    rw [hnone]
    refine ⟨(hs.withMemory fun e' he' => hs.memory e' (hget.2 e' he')).of_alike halike,
      fun v' hv' => ?_⟩
    cases hv'
    rw [← hkey, ← hvalue]
    exact hs.memory e he
  | noDisk hmem _ halike =>
    rw [hmem] at hget
    exact ⟨(hs.withMemory fun e he => hs.memory e (hget.2 e he)).of_alike halike,
      fun v hv => by cases hv⟩
  | missing hmem hside hload _ halike =>
    rw [hmem] at hget
    exact ⟨((hs.withMemory fun e he => hs.memory e (hget.2 e he)).withDisk
      (hdisk _ hside _ _ hload)).of_alike halike, fun v hv => by cases hv⟩
  | overflow hmem hside hload _ _ halike =>
    rw [hmem] at hget
    exact ⟨((hs.withMemory fun e he => hs.memory e (hget.2 e he)).withDisk
      (hdisk _ hside _ _ hload)).of_alike halike, fun v hv => by cases hv⟩
  | @loaded memory memory' side bytes v ds stored _ hmem hside hload hdecode hset halike =>
    rw [hmem] at hget
    have hone : loads s now key (.ok (some v)) = [.loaded key] := by simp [loads, hmem]
    obtain ⟨hsound, hanswer⟩ := hs.loaded hside hload hdecode hget.2 hset
    rw [hone]
    exact ⟨hsound.of_alike halike, fun v' hv' => by cases hv'; exact hanswer⟩

theorem write (hs : Sound S h s) {r : Except CacheError Unit}
    (hrun : (drainOne now).run.run s = (r, s')) : Sound S (writes s now ++ h) s' := by
  rcases hdisk : s.cache.disk with _ | side
  · rw [run_drainOne_none hdisk] at hrun
    cases hrun
    have hnone : writes s now = [] := by simp [writes, hdisk]
    rw [hnone]
    exact hs
  · rcases hqueue : side.queue with _ | ⟨w, rest⟩
    · rw [run_drainOne_nil hdisk hqueue] at hrun
      cases hrun
      have hnone : writes s now = [] := by simp [writes, hdisk, hqueue]
      rw [hnone]
      exact hs
    · rcases hset : (DiskCache.set now w.key w.content).run.run ⟨side.cache, s.drive⟩ with ⟨r, ds⟩
      rw [run_drainOne hdisk hqueue hset] at hrun
      cases hrun
      obtain ⟨done, hdone, hone⟩ : ∃ done, (done = true → r = .ok true) ∧
          writes s now = [.written w.key w.content done] := by
        rcases r with e | done
        · exact ⟨false, by simp, by simp [writes, hdisk, hqueue, hset]⟩
        · exact ⟨done, by simp, by simp [writes, hdisk, hqueue, hset]⟩
      rw [hone]
      refine ⟨fun e he => (hs.memory e he).append _ (by simp) (by simp), fun side' hside => ?_⟩
      cases hside
      exact (hs.disk side hdisk).afterWrite hqueue hset hdone

end Sound

/-- Every run keeps the cache sound. -/
theorem sound_of_reaches (hstart : Sound S [] start) (hreach : Reaches start h s) : Sound S h s := by
  induction hreach with
  | start => exact hstart
  | store _ hrun ih => exact ih.store hrun
  | lookup _ hrun ih => exact (ih.lookup hrun).1
  | write _ hrun ih => exact ih.write hrun

/-- A new cache on a fresh directory is sound. -/
theorem exists_sound_new {settings : Settings} {c : LayeredCache V} {drive : Drive}
    (hnew : new settings true = .ok c) (hfresh : Fresh drive.volume settings.disk.directory) :
    ∃ S, Sound S [] ⟨c, drive⟩ := by
  obtain ⟨S, hpath, hsite, hfile⟩ := hfresh.exists_shelf
  refine ⟨S, ?_⟩
  rw [new] at hnew
  split at hnew
  · cases hnew
    exact ⟨by simp [MemoryCache.new], by simp⟩
  split at hnew
  · cases hnew
  split at hnew
  · cases hnew
  · cases hnew
    refine ⟨by simp [MemoryCache.new], fun side hside => ?_⟩
    cases hside
    refine ⟨⟨hpath.symm, hsite, fun p hp => by cases hp⟩, by simp, fun d content _ hcontent => ?_,
      fun d content _ _ hcontent => ?_⟩
    · rw [hfile] at hcontent
      cases hcontent
    · rw [hfile] at hcontent
      cases hcontent

/-! ## A superseded value -/

/-- A memory layer that holds nothing and takes nothing in. -/
structure Shut (c : MemoryCache V) : Prop where
  entries : c.entries = []
  maxSize : c.maxSize = 0
  ttl : c.ttl = none

omit [Json.Form V] in
theorem Shut.set {c : MemoryCache V} (hc : Shut c) {v : V} {size : UInt64} (hsize : 0 < size) :
    c.set now key v size = some (false, c) := by
  have hdrop : c.dropEntry key = c := by
    simp [MemoryCache.dropEntry, MemoryCache.entry?, hc.entries]
  rw [← hc.maxSize] at hsize
  simp [MemoryCache.set, MemoryCache.setWithTtl, hc.ttl, MemoryCache.expiryOf?, MemoryCache.put,
    hdrop, hsize]

omit [Json.Form V] in
theorem Shut.get {c : MemoryCache V} (hc : Shut c) (now : UInt64) (key : String) :
    ∃ c', c.get now key = (none, c') ∧ Shut c' := by
  have hentry : c.entry? key = none := by simp [MemoryCache.entry?, hc.entries]
  rw [MemoryCache.get, hentry]
  exact ⟨_, rfl, hc.entries, hc.maxSize, hc.ttl⟩

/-- The disk has a value of a key, and memory has none. -/
structure Landed (key : String) (u : V) (s : LayeredState V) (side : DiskSide) : Prop where
  memory : Shut s.cache.memory
  disk : s.cache.disk = some side
  content : ∃ (S : Shelf) (m : Content) (sc : Sidecar), S.Settled ⟨side.cache, s.drive⟩ m ∧
    m (keyDigest key) = some (sc, bytesOf u) ∧ sc.key = key

namespace Landed

variable {u : V}

/-- A value that memory does not take in only waits. -/
theorem store (hs : Landed key u s side) (now : UInt64) (key' : String) (v : V)
    (hsize : 0 < UInt64.ofNat (bytesOf v).size) :
    ∃ s', (store now key' v).run.run s = (.ok (), s') ∧
      Landed key u s' (DiskSide.enqueue side ⟨key', bytesOf v⟩) := by
  obtain ⟨S, m, sc, hsettled, hcontent⟩ := hs.content
  have hcache : (DiskSide.enqueue side ⟨key', bytesOf v⟩).cache = side.cache := by
    rw [DiskSide.enqueue]
    split <;> rfl
  rw [run_store, hs.memory.set hsize]
  refine ⟨_, rfl, hs.memory, ?_, S, m, sc, ?_, hcontent⟩
  · simp only [hs.disk, Option.map_some]
  · rw [hcache]
    exact hsettled

theorem lookup (hs : Landed key u s side) (now : UInt64)
    (hdecode : Json.decodeBytes Json.Form.read (bytesOf u) = .ok u)
    (hsize : 0 < UInt64.ofNat (bytesOf u).size) :
    ∃ s', (lookup now key).run.run s = (.ok (some u), s') := by
  obtain ⟨S, m, sc, hsettled, hm, hkey⟩ := hs.content
  obtain ⟨c, hget, hc⟩ := hs.memory.get now key
  have hload : (getFromDisk now key).run.run (withMemory s c) = _ :=
    run_getFromDisk_loaded (s := withMemory s c) hs.disk (hsettled.get_of_content hm hkey) hdecode
  have hmemory : (withMemory s c).cache.memory = c := rfl
  rw [hmemory, hc.set hsize] at hload
  obtain ⟨s', hs', -⟩ := run_lookup_of_disk hget hload
  exact ⟨s', hs'⟩

end Landed

/-- A value that memory does not take in is on the disk once it has been written. -/
theorem exists_landed (hmemory : Shut s.cache.memory) (hdisk : s.cache.disk = some side)
    (hrunning : side.running = true) (hcapacity : 0 < side.capacity) (hqueue : side.queue = [])
    {S : Shelf} (hsettled : S.Settled ⟨side.cache, s.drive⟩ fun _ => none) (u : V)
    (hsize : 0 < UInt64.ofNat (bytesOf u).size)
    (hfits : (bytesOf u).size ≤ side.cache.maxSize.toNat) (now : UInt64) (key : String) :
    ∃ s₁ s₂ side', (store now key u).run.run s = (.ok (), s₁) ∧
      (drainOne now).run.run s₁ = (.ok (), s₂) ∧
      writes s₁ now = [.written key (bytesOf u) true] ∧ Landed key u s₂ side' ∧
      side'.running = true ∧ side'.capacity = side.capacity ∧ side'.queue = [] := by
  obtain ⟨sc, hsc⟩ : ∃ sc : Sidecar,
      sc = ⟨key, now, UInt64.ofNat (bytesOf u).size, Sidecar.currentVersion⟩ := ⟨_, rfl⟩
  have hold : DiskIndex.Fits (Content.indexed fun _ => none) side.cache.maxSize.toNat :=
    Content.fits (fun _ => 0) [] (fun _ _ hp => by cases hp) (Nat.zero_le _)
  have hword : (UInt64.ofNat (bytesOf u).size).toNat = (bytesOf u).size :=
    UInt64.toNat_ofNat_of_lt' (Nat.lt_of_le_of_lt hfits side.cache.maxSize.toNat_lt)
  have hnew : DiskIndex.Fits (Content.store (fun _ => none) (keyDigest key)
      (sc, bytesOf u)).indexed side.cache.maxSize.toNat := by
    refine Content.fits (fun _ => (bytesOf u).size) [key] (fun d p hp => ?_)
      (by simpa using hfits)
    simp only [Content.store, Option.ite_none_right_eq_some, Option.some.injEq] at hp
    obtain ⟨rfl, rfl⟩ := hp
    refine ⟨by rw [hsc], by simp [hsc], ?_⟩
    rw [hsc]
    exact Nat.le_of_eq hword
  obtain ⟨ds, hset, hsettled', -⟩ := hsettled.run_set hsc hold hnew
  obtain ⟨s₁, hs₁⟩ : ∃ s₁ : LayeredState V, s₁ = { s with cache := { s.cache with
    disk := some { side with queue := [⟨key, bytesOf u⟩] } } } := ⟨_, rfl⟩
  have hdisk₁ : s₁.cache.disk = some { side with queue := [⟨key, bytesOf u⟩] } := by rw [hs₁]
  have hset₁ : (DiskCache.set now key (bytesOf u)).run.run ⟨side.cache, s₁.drive⟩ =
      (.ok true, ds) := by rw [hs₁, ← hset]
  refine ⟨s₁, _, { side with cache := ds.cache, queue := [] }, ?_,
    run_drainOne hdisk₁ rfl hset₁, ?_, ⟨?_, rfl, S, _, sc, hsettled', ?_, ?_⟩, hrunning, rfl, rfl⟩
  · have henqueue : DiskSide.enqueue side ⟨key, bytesOf u⟩ =
        { side with queue := [⟨key, bytesOf u⟩] } := by
      rw [DiskSide.enqueue, if_pos ⟨hrunning, by simpa [hqueue] using hcapacity⟩, hqueue]
      rfl
    rw [run_store, hmemory.set hsize, hs₁, hdisk]
    simp only [Option.map_some, henqueue]
  · simp only [writes, hdisk₁, hset₁]
  · rw [hs₁]
    exact hmemory
  · rw [Content.store, if_pos rfl]
  · rw [hsc]

/-- The settings of a cache with a memory layer that takes nothing in and a queue for one write. -/
def crampedSettings : Settings :=
  { memory := { maxSize := 0, ttlSeconds := none }
    disk := { directory := "cache" }
    queueCapacity := 1 }

/-- A new cache with these settings. -/
def crampedCache : LayeredCache Json where
  memory := .new crampedSettings.memory
  disk := some { cache := .new crampedSettings.disk, capacity := 1 }

/-- A new cache in an empty directory. -/
def crampedStart : LayeredState Json :=
  ⟨crampedCache, ⟨volumeOf "cache", []⟩⟩

theorem fresh_cramped : Fresh crampedStart.drive.volume crampedSettings.disk.directory :=
  fresh_volumeOf (by decide)

/-- The number one, stored and written. -/
theorem exists_cramped : ∃ s side,
    Reaches crampedStart
      [.written "a" (bytesOf (Json.ofNat 1)) true, .stored "a" (Json.ofNat 1)] s ∧
    Landed "a" (Json.ofNat 1) s side ∧ side.running = true ∧ side.capacity = 1 ∧
    side.queue = [] := by
  obtain ⟨S, -, hsettled⟩ :=
    Shelf.exists_settled_new crampedSettings.disk crampedStart.drive fresh_cramped rfl
  obtain ⟨s₁, s₂, side, hstore, hwrite, hwrites, hlanded, hrunning, hcapacity, hqueue⟩ :=
    exists_landed (s := crampedStart) ⟨rfl, rfl, rfl⟩ rfl rfl (by decide) rfl hsettled
      (Json.ofNat 1) (by decide) (by decide) 0 "a"
  refine ⟨s₂, side, ?_, hlanded, hrunning, hcapacity, hqueue⟩
  have hreach := (Reaches.start.store hstore).write hwrite
  rw [hwrites] at hreach
  exact hreach

/-- **The number one is answered after the number two has been stored in its place**, since the
write of the number two has been dropped. -/
theorem lookup_superseded :
    new crampedSettings true = .ok crampedStart.cache ∧
    ∃ (h : List (Event Json)) (s s' : LayeredState Json), Reaches crampedStart h s ∧
      Event.lastStored? "a" h = some (Json.ofNat 2) ∧ Json.ofNat 1 ≠ Json.ofNat 2 ∧
      (lookup 0 "a").run.run s = (.ok (some (Json.ofNat 1)), s') := by
  have hdecode := Json.decodeBytes_ofWord 1
  have hne : Json.ofNat 1 ≠ Json.ofNat 2 := fun heq =>
    absurd (congrArg Json.compact heq) (by decide)
  obtain ⟨s₀, side, hreach, hlanded, hrunning, hcapacity, hqueue⟩ := exists_cramped
  obtain ⟨s₁, hwaits, hlanded₁⟩ := hlanded.store 0 "b" (Json.ofNat 0) (by decide)
  obtain ⟨s₂, hdropped, hlanded₂⟩ := hlanded₁.store 0 "a" (Json.ofNat 2) (by decide)
  obtain ⟨s₃, hlookup⟩ := hlanded₂.lookup 0 hdecode (by decide)
  exact ⟨rfl, _, s₂, s₃, (hreach.store hwaits).store hdropped, rfl, hne, hlookup⟩

/-! ## Answers in runs -/

/-- **In every run an answer was once stored under the key, and it is the value stored last if that
value had been the last written when the key was last loaded.** -/
theorem lookup_answers {settings : Settings} {c : LayeredCache V} {drive : Drive}
    {h : List (Event V)} {s s' : LayeredState V} {now : UInt64} {key : String} {v : V}
    (hnew : new settings true = .ok c) (hfresh : Fresh drive.volume settings.disk.directory)
    (hreach : Reaches ⟨c, drive⟩ h s) (hrun : (lookup now key).run.run s = (.ok (some v), s')) :
    Answer (loads s now key (.ok (some v)) ++ h) key v := by
  obtain ⟨S, hstart⟩ := exists_sound_new hnew hfresh
  exact ((sound_of_reaches hstart hreach).lookup hrun).2 v rfl

/-- The number one is answered from the disk while it is the value stored last. -/
theorem lookup_answers_one :
    ∃ (h : List (Event Json)) (s s' : LayeredState Json), Reaches crampedStart h s ∧
      (lookup 0 "a").run.run s = (.ok (some (Json.ofNat 1)), s') ∧
      Event.UpToDate "a" (loads s 0 "a" (.ok (some (Json.ofNat 1))) ++ h) ∧
      Answer (loads s 0 "a" (.ok (some (Json.ofNat 1))) ++ h) "a" (Json.ofNat 1) := by
  obtain ⟨s, side, hreach, hlanded, -⟩ := exists_cramped
  obtain ⟨s', hlookup⟩ := hlanded.lookup 0 (Json.decodeBytes_ofWord 1) (by decide)
  obtain ⟨c, hget, -⟩ := hlanded.memory.get 0 "a"
  have hloads : loads s 0 "a" (.ok (some (Json.ofNat 1))) = [.loaded "a"] := by simp [loads, hget]
  have hnew : new crampedSettings true = .ok crampedStart.cache := rfl
  refine ⟨_, s, s', hreach, hlookup, ?_, lookup_answers hnew fresh_cramped hreach hlookup⟩
  rw [hloads]
  exact ⟨Json.ofNat 1, rfl, if_pos rfl⟩

end LayeredCache

end CodeGraph.Cache
