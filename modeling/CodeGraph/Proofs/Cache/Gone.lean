import CodeGraph.Proofs.Cache.Orderly
import CodeGraph.Proofs.Cache.Sessions

/-!
# Keys that are gone

Whatever the caller does, and whenever the writer and a lookup take their steps, both layers are empty
once clearing has answered, and no lookup finds a value of a key until the key is stored again. The
invariant is that the sidecars on the disk, the values in memory and the writes that wait all have keys
that are not gone, and that each step that is left of a store and of a lookup keeps this
(`Session.Orderly`). When a session is cleared every key may be gone (`Session.Orderly.clear`).
-/

namespace CodeGraph.Cache

open LayeredCache (withDisk withMemory lookup store flush diskStats change onDisk conclude)

namespace Session

variable {V : Type}

/-- Whether memory and the disk hold nothing and nothing waits or is in hand. If there is a directory,
the disk layer counts no entries. -/
structure Empty (x : Session V) : Prop where
  memory : x.state.cache.memory.entries = []
  hand : x.hand = .empty
  queue : x.queue = []
  disk : ∀ side, x.state.cache.disk = some side →
    ∃ base, DiskCache.Holds x.state.drive.volume side.cache.directory base [] ∧
      (x.state.drive.volume.readDir side.cache.directory ≠ .error .notFound →
        ∃ s', DiskCache.stats.run.run (x.disk side) = (.ok ⟨0, 0, side.cache.maxSize⟩, s'))

/-- A session with an empty memory. -/
def emptied (x : Session V) : Session V :=
  { x with state := withMemory x.state x.state.cache.memory.clear }

/-- A session that is being cleared when only the disk is left to be cleared. -/
def spent (now : UInt64) (x : Session V) : Session V :=
  x.emptied.drain now x.queue.length

/-- A write is added to the queue or dropped. -/
theorem enqueue_cases (side : DiskSide) (w : PendingWrite) :
    LayeredCache.DiskSide.enqueue side w = side ∨ (side.running ∧ side.queue.length < side.capacity) ∧
      LayeredCache.DiskSide.enqueue side w = { side with queue := side.queue ++ [w] } := by
  rw [LayeredCache.DiskSide.enqueue]
  split
  · next hroom => exact .inr ⟨hroom, rfl⟩
  · exact .inl rfl

section Runs

variable {x : Session V} {now : UInt64} {side : DiskSide}

theorem run_diskStats_none {s : LayeredState V} (hdisk : s.cache.disk = none) :
    diskStats.run.run s = (.ok none, s) := by
  rw [diskStats, run_bind_ok (LayeredCache.run_onDisk_none hdisk _)]
  rfl

theorem state_diskStats (hdisk : x.state.cache.disk = some side) :
    (diskStats.run.run x.state).2 = x.stepped side (DiskCache.stats.run.run (x.disk side)).2 := by
  have hside : x.disk side = ⟨side.cache, x.state.drive⟩ := rfl
  rw [diskStats, run_bind_ok (LayeredCache.run_onDisk hdisk _), hside]
  rcases DiskCache.stats.run.run ⟨side.cache, x.state.drive⟩ with ⟨_ | _, ds⟩ <;> rfl

theorem hand_spent (hhand : x.hand = .empty) : (x.spent now).hand = .empty :=
  hand_drain (x := x.emptied) hhand now _

theorem queue_spent (hhand : x.hand = .empty) : (x.spent now).queue = [] :=
  queue_drain (x := x.emptied) hhand (Nat.le_refl _)

theorem memory_spent (x : Session V) (now : UInt64) :
    (x.spent now).state.cache.memory.entries = [] := by
  rw [spent, memory_drain]
  rfl

theorem run_clear (hhand : x.hand = .empty) :
    (LayeredCache.clear now).run.run x.state =
      (do
        match ← onDisk DiskCache.clear with
        | some (.error e) => throw e
        | _ => return : LayeredM V Unit).run.run (x.spent now).state := by
  have hchange : (change fun c : LayeredCache V => { c with memory := c.memory.clear }).run.run
      x.state = (.ok (), x.emptied.state) := rfl
  have hflush : (flush now).run.run x.emptied.state = (.ok (), (x.spent now).state) :=
    run_flush (x := x.emptied) hhand
  rw [LayeredCache.clear]
  exact (run_bind_ok hchange).trans (run_bind_ok hflush)

theorem run_clear_none (hhand : x.hand = .empty) (hdisk : (x.spent now).state.cache.disk = none) :
    (LayeredCache.clear now).run.run x.state = (.ok (), (x.spent now).state) := by
  rw [run_clear hhand, run_bind_ok (LayeredCache.run_onDisk_none hdisk _)]
  rfl

theorem run_clear_some {r : Except CacheError Unit} {ds : DiskState} (hhand : x.hand = .empty)
    (hdisk : (x.spent now).state.cache.disk = some side)
    (hclear : DiskCache.clear.run.run ((x.spent now).disk side) = (r, ds)) :
    (LayeredCache.clear now).run.run x.state = (r, (x.spent now).stepped side ds) := by
  have hclear' : DiskCache.clear.run.run ⟨side.cache, (x.spent now).state.drive⟩ = (r, ds) := hclear
  rw [run_clear hhand, run_bind_ok (LayeredCache.run_onDisk hdisk _), hclear']
  rcases r with e | _ <;> rfl

end Runs

/-! ## Keys that are gone -/

/-- A session in which some keys are gone: memory has no values of them, no write that waits or is in
hand stores one, the disk layer is in order, and what is left of a store or of a lookup keeps it so. -/
structure Orderly (S : Shelf) (gone : String → Prop) (x : Session V) : Prop where
  memory : ∀ e ∈ x.state.cache.memory.entries, ¬ gone e.key
  asking : ∀ a, x.asking = some a → a.rest.Keeps (S.Orderly gone) fun r => gone a.key → r = none
  hand : ∀ now rest, x.hand.rest? now = some rest → rest.Keeps (S.Orderly gone) fun _ => True
  disk : ∀ side, x.state.cache.disk = some side →
    S.Orderly gone (x.disk side) ∧ ∀ w ∈ side.queue, ¬ gone w.key

namespace Orderly

variable {S : Shelf} {gone : String → Prop} {x y : Session V} {now : UInt64} {side : DiskSide}

/-- Only memory and the lookup under way have changed. -/
theorem of_same (h : Orderly S gone x) (hhand : y.hand = x.hand)
    (hdisk : y.state.cache.disk = x.state.cache.disk) (hdrive : y.state.drive = x.state.drive)
    (hmemory : ∀ e ∈ y.state.cache.memory.entries, ¬ gone e.key)
    (hasking : ∀ a, y.asking = some a →
      a.rest.Keeps (S.Orderly gone) fun r => gone a.key → r = none) : Orderly S gone y := by
  refine ⟨hmemory, hasking, hhand ▸ h.hand, fun side hside => ?_⟩
  rw [hdisk] at hside
  rw [Session.disk, hdrive]
  exact h.disk side hside

/-- The disk layer has gone on by a step that keeps it in order. -/
theorem of_stepped (h : Orderly S gone x) (hdisk : x.state.cache.disk = some side) {ds : DiskState}
    (hds : S.Orderly gone ds) : Orderly S gone { x with state := x.stepped side ds } := by
  refine ⟨h.memory, h.asking, h.hand, fun side' hside' => ?_⟩
  obtain rfl := Option.some.inj hside'
  exact ⟨hds, (h.disk side hdisk).2⟩

/-! ### The writer -/

theorem take (h : Orderly S gone x) : Orderly S gone x.take := by
  rw [Session.take]
  split
  · next side _ hdisk =>
    split
    · exact h
    · next w rest hqueue =>
      obtain ⟨hds, hwaits⟩ := h.disk side hdisk
      rw [hqueue] at hwaits
      refine ⟨h.memory, h.asking, fun now p hp => ?_, fun side' hside' => ?_⟩
      · cases hp
        exact Shelf.keeps_set now (hwaits w (List.mem_cons_self ..)) w.content
      · obtain rfl := Option.some.inj hside'
        exact ⟨hds, fun w' hw' => hwaits w' (List.mem_cons_of_mem _ hw')⟩
  · exact h

theorem finish (h : Orderly S gone x) (hdisk : x.state.cache.disk = some side)
    (r : Except CacheError Bool) {ds : DiskState} (hds : S.Orderly gone ds) :
    Orderly S gone (x.finish side r ds) := by
  refine ⟨h.memory, h.asking, fun now p hp => (by cases hp), fun side' hside' => ?_⟩
  obtain rfl := Option.some.inj hside'
  have hwaits := (h.disk side hdisk).2
  rcases r with e | kept
  · rw [DiskSide.afterWrite]
    split
    · exact ⟨hds, fun w hw => (by cases hw)⟩
    · exact ⟨hds, hwaits⟩
  · exact ⟨hds, hwaits⟩

theorem carryOut (h : Orderly S gone x) (now : UInt64) : Orderly S gone (x.carryOut now) := by
  rw [Session.carryOut]
  split
  · next side rest hdisk hrest =>
    exact h.finish hdisk _ ((h.hand now rest hrest).run (h.disk side hdisk).1).1
  · exact ⟨h.memory, h.asking, fun now p hp => (by cases hp), h.disk⟩

theorem drain (h : Orderly S gone x) (now : UInt64) (n : Nat) : Orderly S gone (x.drain now n) := by
  induction n generalizing x with
  | zero => exact h
  | succ n ih => exact ih (h.take.carryOut now)

/-- What a step of the writer keeps. -/
theorem work (h : Orderly S gone x) (now : UInt64) : Orderly S gone (x.work now) := by
  rw [Session.work]
  split
  · exact h.take
  · next w side hhand hdisk =>
    refine ⟨h.memory, h.asking, fun now' p hp => ?_, h.disk⟩
    cases hp
    exact h.hand now _ (by rw [hhand]; rfl)
  · next w r side hhand hdisk => exact h.finish hdisk r (h.disk side hdisk).1
  · next w change rest side hhand hdisk =>
    obtain ⟨hds, hrest⟩ :=
      (h.hand now (.step change rest) (by rw [hhand]; rfl)).advance (h.disk side hdisk).1
    refine ⟨h.memory, h.asking, fun now' p hp => ?_, (h.of_stepped hdisk hds).disk⟩
    cases hp
    exact hrest
  · exact h

/-! ### Calls -/

theorem emptied (h : Orderly S gone x) : Orderly S gone x.emptied :=
  h.of_same rfl rfl rfl (fun e he => by cases he) h.asking

theorem look (h : Orderly S gone x) : Orderly S gone x.look := by
  rw [Session.look]
  split
  · exact h
  · rcases hdisk : x.state.cache.disk with _ | side
    · rw [call, run_diskStats_none hdisk]
      exact h
    · rw [call, state_diskStats hdisk]
      exact h.of_stepped hdisk (h.disk side hdisk).1.run_stats

/-- A session is cleared when nothing is in hand and no lookup is under way. -/
theorem clear (h : Orderly S gone x) (hhand : x.hand = .empty) (hasking : x.asking = none)
    (now : UInt64) (gone' : String → Prop) :
    let y := x.call (LayeredCache.clear now)
    ((LayeredCache.clear now).run.run x.state).1 = .ok () ∧ y.Empty ∧ Orderly S gone' y := by
  intro y
  have hspent : Orderly S gone (x.spent now) := h.emptied.drain now _
  have hasking' : ∀ a, y.asking = some a →
      a.rest.Keeps (S.Orderly gone') fun r => gone' a.key → r = none := fun a ha => by
    cases hasking ▸ ha
  have hhand' : ∀ now rest, y.hand.rest? now = some rest →
      rest.Keeps (S.Orderly gone') fun _ => True := fun now rest hrest => by
    have hnone : y.hand = .empty := hhand
    rw [hnone] at hrest
    cases hrest
  rcases hdisk : (x.spent now).state.cache.disk with _ | side
  · have hrun := run_clear_none hhand hdisk
    have hstate : y.state = (x.spent now).state := congrArg Prod.snd hrun
    have hmemory : y.state.cache.memory.entries = [] := hstate ▸ memory_spent x now
    have hqueue : y.queue = [] := by
      rw [queue, hstate]
      exact queue_spent hhand
    have hnone : ∀ side, y.state.cache.disk ≠ some side := by
      rw [hstate, hdisk]
      intro side hside
      cases hside
    refine ⟨by rw [hrun], ⟨hmemory, hhand, hqueue, fun side hside => absurd hside (hnone side)⟩,
      fun e he => ?_, hasking', hhand', fun side hside => absurd hside (hnone side)⟩
    rw [hmemory] at he
    cases he
  · obtain ⟨ds, hclear, hds, hholds, hcounts⟩ :
        ∃ ds, DiskCache.clear.run.run ((x.spent now).disk side) = (.ok (), ds) ∧
          S.Orderly gone' ds ∧ _ ∧ _ := (hspent.disk side hdisk).1.run_clear
    have hrun := run_clear_some hhand hdisk hclear
    have hstate : y.state = (x.spent now).stepped side ds := congrArg Prod.snd hrun
    have hmemory : y.state.cache.memory.entries = [] := hstate ▸ memory_spent x now
    have hqueue : side.queue = [] := by
      have hnil : (x.spent now).queue = [] := queue_spent hhand
      rw [queue, hdisk] at hnil
      exact hnil
    have hdisk' : y.state.cache.disk = some { side with cache := ds.cache } := by
      rw [hstate]
      rfl
    have hdrive : y.state.drive = ds.drive := by
      rw [hstate]
      rfl
    refine ⟨by rw [hrun], ⟨hmemory, hhand, ?_, fun side' hside' => ?_⟩, fun e he => ?_, hasking',
      hhand', fun side' hside' => ?_⟩
    · rw [queue, hdisk']
      exact hqueue
    · obtain rfl := Option.some.inj (hdisk'.symm.trans hside')
      rw [Session.disk, hdrive]
      simp only [hds.directory]
      exact ⟨S.base, hholds, fun hthere => (hcounts hthere).empty.2⟩
    · rw [hmemory] at he
      cases he
    · obtain rfl := Option.some.inj (hdisk'.symm.trans hside')
      rw [Session.disk, hdrive, hqueue]
      exact ⟨hds, fun w hw => (by cases hw)⟩

variable [Json.Form V]

theorem store (h : Orderly S gone x) {key : String} (hkey : ¬ gone key) (now : UInt64) (v : V) :
    Orderly S gone (x.call (LayeredCache.store now key v)) := by
  rw [call, LayeredCache.run_store]
  rcases hset : x.state.cache.memory.set now key v (UInt64.ofNat (bytesOf v).size) with
    _ | ⟨stored, memory⟩
  · exact h
  · refine ⟨?_, h.asking, h.hand, ?_⟩
    · intro e he
      rcases MemoryCache.mem_of_set hset e he with ⟨rfl, -, -⟩ | ⟨he, -⟩
      · exact hkey
      · exact h.memory e he
    · intro side' hside'
      obtain ⟨side, hdisk, rfl⟩ := Option.map_eq_some_iff.1 hside'
      obtain ⟨hds, hwaits⟩ := h.disk side hdisk
      rcases enqueue_cases side ⟨key, bytesOf v⟩ with heq | ⟨-, heq⟩
      · rw [heq]
        exact ⟨hds, hwaits⟩
      · rw [heq]
        refine ⟨hds, fun w hw => ?_⟩
        rcases List.mem_append.1 hw with hw | hw
        · exact hwaits w hw
        · obtain rfl := List.mem_singleton.1 hw
          exact hkey

/-- A lookup that memory answers finds no value of a key that is gone. -/
theorem ask (h : Orderly S gone x) (hasking : x.asking = none) (now : UInt64) (key : String) :
    Orderly S gone (x.ask now key) ∧
      ∀ k r, x.answered now (.call (.lookup key)) = some (k, r) → gone k → r = .ok none := by
  have hmemory : ∀ e ∈ (x.state.cache.memory.get now key).2.entries, ¬ gone e.key := fun e he =>
    h.memory e ((MemoryCache.mem_of_get x.state.cache.memory now key).2 e he)
  rcases hget : x.state.cache.memory.get now key with ⟨_ | v, memory⟩
  · rw [hget] at hmemory
    rcases hdisk : x.state.cache.disk with _ | side
    · obtain ⟨s', hlookup, halike⟩ := LayeredCache.run_lookup_of_noDisk hget hdisk
      simp only [Session.ask, answered, hget, hdisk, hasking, call, hlookup]
      refine ⟨h.of_same rfl halike.disk halike.drive (halike.memory.symm ▸ hmemory)
        (fun a ha => by cases ha), ?_⟩
      rintro _ _ ⟨rfl, rfl⟩ _
      rfl
    · simp only [Session.ask, answered, hget, hdisk, hasking, reduceCtorEq, false_implies,
        implies_true, and_true]
      refine h.of_same rfl rfl rfl hmemory fun a ha => ?_
      cases ha
      exact Shelf.keeps_get key
  · rw [hget] at hmemory
    obtain ⟨s', hlookup, halike⟩ := LayeredCache.run_lookup_of_memory hget
    simp only [Session.ask, answered, hget, hasking, call, hlookup]
    refine ⟨h.of_same rfl halike.disk halike.drive (halike.memory.symm ▸ hmemory)
      (fun a ha => by cases ha), ?_⟩
    rintro _ _ ⟨rfl, rfl⟩ hgone
    obtain ⟨e, he, rfl, -⟩ :=
      (MemoryCache.mem_of_get x.state.cache.memory now key).1 v (by rw [hget])
    exact absurd hgone (h.memory e he)

/-- What a step of a lookup keeps. If it is the last one, no value of a key that is gone is answered. -/
theorem proceed (h : Orderly S gone x) (now : UInt64) :
    Orderly S gone (x.proceed now) ∧
      ∀ key r, x.answered now .proceed = some (key, r) → gone key → r = .ok none := by
  rcases hasking : x.asking with _ | ⟨key, r | ⟨change, rest⟩⟩
  · simp only [Session.proceed, answered, hasking]
    exact ⟨h, fun _ _ hr => by cases hr⟩
  · simp only [Session.proceed, answered, hasking, Option.some.injEq, Prod.mk.injEq]
    have hsome : ∀ bytes, r = .ok (some bytes) → ¬ gone key := by
      rintro bytes rfl hgone
      cases h.asking _ hasking hgone
    rcases hrun : (conclude (V := V) now key r).run.run x.state with ⟨r', s'⟩
    simp only [call, hrun]
    obtain ⟨hdisk, hdrive, hcases⟩ := LayeredCache.conclude_cases hrun
    refine ⟨h.of_same rfl hdisk hdrive ?_ (fun a ha => by cases ha), ?_⟩
    · rcases hcases with ⟨hmemory, -⟩ | ⟨bytes, v, stored, hbytes, hset⟩
      · rw [hmemory]
        exact h.memory
      · intro e he
        rcases MemoryCache.mem_of_set hset e he with ⟨rfl, -, -⟩ | ⟨he, -⟩
        · exact hsome bytes hbytes
        · exact h.memory e he
    · rintro key r ⟨rfl, rfl⟩ hgone
      rcases hcases with ⟨-, hnone | ⟨bytes, hbytes⟩⟩ | ⟨bytes, v, stored, hbytes, -⟩
      · exact hnone
      · exact absurd hgone (hsome bytes hbytes)
      · exact absurd hgone (hsome bytes hbytes)
  · refine ⟨?_, fun key r hr => by simp only [answered, hasking, reduceCtorEq] at hr⟩
    rcases hdisk : x.state.cache.disk with _ | side
    · simp only [Session.proceed, hasking, hdisk]
      exact h
    · simp only [Session.proceed, hasking, hdisk]
      obtain ⟨hds, hrest⟩ := (h.asking _ hasking).advance (h.disk side hdisk).1
      refine (h.of_stepped hdisk hds).of_same rfl rfl rfl h.memory fun a ha => ?_
      cases ha
      exact hrest

/-- What a call keeps. -/
theorem make (h : Orderly S gone x) (hasking : x.asking = none) (now : UInt64) {request : Request V}
    (hstore : ∀ key v, request = .store key v → ¬ gone key) :
    Orderly S gone (x.make now request) := by
  cases request with
  | store key v => exact h.store (hstore key v rfl) now v
  | lookup key => exact (h.ask hasking now key).1
  | diskStats => exact h.look
  | clearMemory => exact h.emptied
  | dropMemory key =>
    exact h.of_same rfl rfl rfl (fun e he => h.memory e (MemoryCache.mem_dropEntry.1 he).1) h.asking
  | flush =>
    rw [make_flush]
    exact (h.carryOut now).drain now _
  | clear =>
    exact ((h.carryOut now).clear (hand_carryOut x now) ((asking_carryOut x now).trans hasking) now
      gone).2.2

/-- What a turn keeps. -/
theorem play (h : Orderly S gone x) (now : UInt64) {turn : Turn V}
    (hstore : ∀ key v, turn = .call (.store key v) → ¬ gone key) :
    Orderly S gone (x.play now turn) := by
  cases turn with
  | call request =>
    rcases hasking : x.asking with _ | a
    · simp only [Session.play, hasking, Option.isNone_none, if_true]
      exact h.make hasking now fun key v hrequest => hstore key v (congrArg _ hrequest)
    · simp only [Session.play, hasking, Option.isNone_some, Bool.false_eq_true, if_false]
      exact h
  | proceed => exact (h.proceed now).1
  | work => exact h.work now

/-- A lookup that a turn answers finds no value of a key that is gone. -/
theorem answered (h : Orderly S gone x) {now : UInt64} {turn : Turn V} {key : String}
    {r : Except CacheError (Option V)} (hr : x.answered now turn = some (key, r)) (hgone : gone key) :
    r = .ok none := by
  cases turn with
  | work => cases hr
  | proceed => exact (h.proceed now).2 key r hr hgone
  | call request =>
    cases request with
    | lookup key' =>
      rcases hasking : x.asking with _ | a
      · exact (h.ask hasking now key').2 key r hr hgone
      · simp only [Session.answered, hasking, reduceCtorEq] at hr
    | _ => cases hr

variable {turns : List (UInt64 × Turn V)}

/-- What turns keep. -/
theorem playAll (h : Orderly S gone x)
    (hstore : ∀ t key v, (t, .call (.store key v)) ∈ turns → ¬ gone key) :
    Orderly S gone (x.playAll turns) := by
  induction turns generalizing x with
  | nil => exact h
  | cons head turns ih =>
    obtain ⟨now, turn⟩ := head
    exact ih (h.play now fun key v hturn => hstore now key v (hturn ▸ List.mem_cons_self ..))
      fun t key v hmem => hstore t key v (List.mem_cons_of_mem _ hmem)

/-- **No lookup that turns answer finds a value of a key that is gone.** -/
theorem answers (h : Orderly S gone x)
    (hstore : ∀ t key v, (t, .call (.store key v)) ∈ turns → ¬ gone key) {key : String}
    {r : Except CacheError (Option V)} (hr : (key, r) ∈ x.answers turns) (hgone : gone key) :
    r = .ok none := by
  induction turns generalizing x with
  | nil => cases hr
  | cons head turns ih =>
    obtain ⟨now, turn⟩ := head
    rcases List.mem_append.1 hr with hr | hr
    · exact h.answered (Option.mem_toList.1 hr) hgone
    · exact ih (h.play now fun key v hturn => hstore now key v (hturn ▸ List.mem_cons_self ..))
        (fun t key v hmem => hstore t key v (List.mem_cons_of_mem _ hmem)) hr

end Orderly

end Session

end CodeGraph.Cache
