import CodeGraph.Proofs.Cache.Gone
import CodeGraph.Proofs.Cache.Lossless

/-!
# Flushing and clearing are barriers

The writes that have been accepted are on the disk once a flush returns, each once and in the order in
which they were accepted, as long as no lookup is overtaken (`Session.Overtaken`). The invariant is that
what has been carried out, what the writer holds and what waits are together the orders of the caller
(`Session.Sound`). A write that is being carried out leads from the orders before it to its own end
(`Hand.Leads`), and lookups change nothing. Nothing ends the writer but a value that is one too much for
a 64-bit word (`Session.Stopped`). `Session.flush_and_clear` says this of flushing, and of clearing what
holds whether or not a lookup is overtaken.

A lookup that has read the sidecar of its key finds the value gone if the writer has dropped the entry in
the meantime. It then takes the entry away, and the writer may by now have stored it again
(`Session.exists_overtaken`). A store that was accepted and carried out is lost like this, and a flush
returns all the same (`Session.exists_lost_store`).
-/

namespace CodeGraph.Cache

open DiskCache (valueEnding)
open LayeredCache (withDisk withMemory lookup store flush diskStats change onDisk conclude)

/-! ## The write in hand -/

/-- Whether no write has been begun. -/
def Hand.Idle : Hand → Prop
  | .busy _ _ => False
  | .empty | .taken _ => True

/-- Whether a write in hand, carried out from the second disk layer on, comes to what it comes to from
the first. -/
def Hand.Leads (start s : DiskState) : Hand → Prop
  | .busy w rest => ∃ now, rest.run s = (DiskCache.set now w.key w.content).run.run start
  | .empty | .taken _ => s = start

theorem Hand.Leads.eq {hand : Hand} {start s : DiskState} (h : hand.Leads start s)
    (hidle : hand.Idle) : s = start := by
  cases hand with
  | busy w rest => exact hidle.elim
  | _ => exact h

theorem Hand.leads_self {hand : Hand} (hidle : hand.Idle) (s : DiskState) : hand.Leads s s := by
  cases hand with
  | busy w rest => exact hidle.elim
  | _ => rfl

namespace Session

variable {V : Type}

/-- Whether the lookup under way has been overtaken: its value has gone since it read the sidecar. -/
def Overtaken (x : Session V) : Prop :=
  ∃ key side, x.asking = some ⟨key, Staged.getValue key⟩ ∧ x.state.cache.disk = some side ∧
    x.state.drive.volume.readFile (side.cache.valuePath key) = .error .notFound

/-- Whether no lookup goes on in turns when it has been overtaken. -/
def Undisturbed [Json.Form V] (x : Session V) : List (UInt64 × Turn V) → Prop
  | [] => True
  | (now, turn) :: turns =>
    (turn = .proceed → ¬ x.Overtaken) ∧ (x.play now turn).Undisturbed turns

/-- Whether the disk layer counts no entries. -/
def Forgotten (x : Session V) : Prop :=
  ∀ side, x.state.cache.disk = some side →
    ∃ s', DiskCache.stats.run.run (x.disk side) = (.ok ⟨0, 0, side.cache.maxSize⟩, s')

/-! ## Writes in turn -/

/-- A session in which all that has been ordered has been carried out, but for what is in hand and what
waits. The lookup under way has changed nothing. -/
structure Sound (S : Shelf) (start : DiskState) (orders : List DiskOrder) (x : Session V) : Prop where
  asking : ∀ a, x.asking = some a →
    a.rest = Staged.get a.key ∨ a.rest = Staged.getValue a.key ∨ ∃ r, a.rest = .done r
  disk : ∀ side, x.state.cache.disk = some side → side.running = true ∧
    ∃ s, S.Follows start orders s (x.hand.writes ++ side.queue) ∧ x.hand.Leads s (x.disk side)

/-- A session whose writer has ended over a value that was one too much. -/
structure Stopped (start : DiskState) (orders : List DiskOrder) (x : Session V) : Prop where
  hand : x.hand = .empty
  disk : ∃ side, x.state.cache.disk = some side ∧ side.running = false ∧ side.queue = []
  overfull : start.Overfull orders

/-- A session whose writer works or has ended. -/
def Stands (S : Shelf) (start : DiskState) (orders : List DiskOrder) (x : Session V) : Prop :=
  Sound S start orders x ∨ Stopped start orders x

section InTurn

variable {S : Shelf} {gone : String → Prop} {start : DiskState}
  {orders further : List DiskOrder} {x y : Session V} {now : UInt64} {side : DiskSide}

/-! ### A writer that has ended -/

namespace Stopped

theorem not_works (h : Stopped start orders x) : ¬ x.Works := by
  intro hworks
  obtain ⟨side, hdisk, hrunning, -⟩ := h.disk
  rw [hworks side hdisk] at hrunning
  cases hrunning

/-- A writer that has ended stays so, whatever is done with the disk layer. -/
theorem of_disk (h : Stopped start orders x) (hhand : y.hand = x.hand)
    (hdisk : ∀ side, x.state.cache.disk = some side →
      ∃ cache, y.state.cache.disk = some { side with cache }) :
    Stopped start (orders ++ further) y := by
  obtain ⟨side, hside, hrunning, hqueue⟩ := h.disk
  obtain ⟨cache, hcache⟩ := hdisk side hside
  exact ⟨hhand.trans h.hand, ⟨_, hcache, hrunning, hqueue⟩, h.overfull.more further⟩

theorem of_same (h : Stopped start orders x) (hhand : y.hand = x.hand)
    (hdisk : y.state.cache.disk = x.state.cache.disk) :
    Stopped start (orders ++ further) y :=
  h.of_disk hhand (fun side hside => ⟨side.cache, hdisk.trans hside⟩)

theorem take_eq (h : Stopped start orders x) : x.take = x := by
  obtain ⟨side, hdisk, -, hqueue⟩ := h.disk
  rw [Session.take, h.hand, hdisk]
  simp only [hqueue]

theorem drain_eq (h : Stopped start orders x) (now : UInt64) (n : Nat) : x.drain now n = x := by
  induction n with
  | zero => rfl
  | succ n ih => rw [drain, h.take_eq, carryOut_empty h.hand, ih]

theorem work_eq (h : Stopped start orders x) (now : UInt64) : x.work now = x := by
  simp only [work, h.hand, h.take_eq]

variable [Json.Form V]

theorem make (h : Stopped start orders x) (now : UInt64) (request : Request V) :
    Stopped start (orders ++ further) (x.make now request) := by
  obtain ⟨side, hdisk, hrunning, hqueue⟩ := h.disk
  have hnil : x.queue = [] := by rw [queue, hdisk]; exact hqueue
  cases request with
  | store key v =>
    refine h.of_same rfl ?_
    have hrefused : LayeredCache.DiskSide.enqueue side ⟨key, bytesOf v⟩ = side := by
      rw [LayeredCache.DiskSide.enqueue, if_neg (by simp [hrunning])]
    change ((LayeredCache.store now key v).run.run x.state).2.cache.disk = _
    rw [LayeredCache.run_store]
    rcases x.state.cache.memory.set now key v (UInt64.ofNat (bytesOf v).size) with _ | _
    · rfl
    · simp only [hdisk, Option.map_some, hrefused]
  | lookup key =>
    rcases hget : x.state.cache.memory.get now key with ⟨_ | v, memory⟩
    · simp only [Session.make, Session.ask, hget, hdisk]
      exact h.of_same rfl rfl
    · obtain ⟨s', hlookup, halike⟩ := LayeredCache.run_lookup_of_memory hget
      simp only [Session.make, Session.ask, hget]
      refine h.of_same rfl ?_
      rw [call, hlookup]
      exact halike.disk
  | diskStats =>
    simp only [Session.make, Session.look, h.hand]
    refine h.of_disk (y := x.call LayeredCache.diskStats) rfl (fun side' hdisk' => ?_)
    rw [call, state_diskStats hdisk']
    exact ⟨_, rfl⟩
  | clearMemory => exact h.of_same rfl rfl
  | dropMemory key => exact h.of_same rfl rfl
  | flush =>
    rw [make_flush, carryOut_empty h.hand, h.drain_eq]
    exact h.of_same rfl rfl
  | clear =>
    have hspent : x.spent now = x.emptied := by rw [spent, hnil]; rfl
    have hdisk' : (x.spent now).state.cache.disk = some side := by rw [hspent]; exact hdisk
    rw [Session.make, carryOut_empty h.hand]
    refine h.of_disk (y := x.call (LayeredCache.clear now)) rfl (fun side' hside' => ?_)
    obtain rfl := Option.some.inj (hdisk.symm.trans hside')
    rw [call, run_clear_some h.hand hdisk' rfl]
    exact ⟨_, rfl⟩

theorem proceed (h : Stopped start orders x) (now : UInt64) :
    Stopped start (orders ++ further) (x.proceed now) := by
  obtain ⟨side, hdisk, -⟩ := h.disk
  rcases hasking : x.asking with _ | ⟨key, r | ⟨change, rest⟩⟩
  · simp only [Session.proceed, hasking]
    exact h.of_same rfl rfl
  · simp only [Session.proceed, hasking]
    refine h.of_same rfl ?_
    exact (LayeredCache.conclude_cases rfl).1
  · simp only [Session.proceed, hasking, hdisk]
    refine h.of_disk rfl (fun side' hside' => ?_)
    obtain rfl := Option.some.inj (hdisk.symm.trans hside')
    exact ⟨_, rfl⟩

/-- A writer that has ended stays so. -/
theorem play (h : Stopped start orders x) (now : UInt64) (turn : Turn V) :
    Stopped start (orders ++ further) (x.play now turn) := by
  cases turn with
  | call request =>
    rw [Session.play]
    split
    · exact h.make now request
    · exact h.of_same rfl rfl
  | proceed => exact h.proceed now
  | work =>
    rw [Session.play, h.work_eq]
    exact h.of_same rfl rfl

end Stopped

/-! ### A writer that works -/

namespace Sound

/-- Only memory and the lookup under way have changed. -/
theorem of_same (h : Sound S start orders x) (hhand : y.hand = x.hand)
    (hdisk : y.state.cache.disk = x.state.cache.disk) (hdrive : y.state.drive = x.state.drive)
    (hasking : ∀ a, y.asking = some a →
      a.rest = Staged.get a.key ∨ a.rest = Staged.getValue a.key ∨ ∃ r, a.rest = .done r) :
    Sound S start orders y := by
  refine ⟨hasking, fun side hside => ?_⟩
  rw [hdisk] at hside
  rw [hhand, Session.disk, hdrive]
  exact h.disk side hside

theorem take (h : Sound S start orders x) : Sound S start orders x.take := by
  rw [Session.take]
  split
  · next side hhand hdisk =>
    split
    · exact h
    · next w rest hqueue =>
      obtain ⟨hrunning, s, hfollows, hleads⟩ := h.disk side hdisk
      rw [hhand, hqueue] at hfollows
      rw [hhand] at hleads
      refine ⟨h.asking, fun side' hside' => ?_⟩
      obtain rfl := Option.some.inj hside'
      exact ⟨hrunning, s, hfollows, hleads⟩
  · exact h

/-- The writer is done with a write. -/
theorem finish (h : Sound S start orders x) (hdisk : x.state.cache.disk = some side)
    {w : PendingWrite} {s ds : DiskState} (hfollows : S.Follows start orders s (w :: side.queue))
    {r : Except CacheError Bool}
    (hset : (DiskCache.set now w.key w.content).run.run s = (r, ds)) :
    Stands S start orders (x.finish side r ds) := by
  rcases hfollows.run_set now with ⟨ds', hrun, hover⟩ | ⟨kept, ds', hrun, hfollows'⟩
  · rw [hset] at hrun
    cases hrun
    exact .inr ⟨rfl, ⟨_, rfl, rfl, rfl⟩, hover⟩
  · rw [hset] at hrun
    cases hrun
    refine .inl ⟨h.asking, fun side' hside' => ?_⟩
    obtain rfl := Option.some.inj hside'
    exact ⟨(h.disk side hdisk).1, ds, hfollows', rfl⟩

theorem carryOut (h : Sound S start orders x) (now : UInt64) :
    Stands S start orders (x.carryOut now) := by
  rcases hdisk : x.state.cache.disk with _ | side
  · have hnone : (x.carryOut now).state = x.state := by simp only [Session.carryOut, hdisk]
    refine .inl ⟨(asking_carryOut x now).symm ▸ h.asking, fun side hside => ?_⟩
    rw [hnone, hdisk] at hside
    cases hside
  obtain ⟨-, s, hfollows, hleads⟩ := h.disk side hdisk
  rcases hhand : x.hand with _ | w | ⟨w, rest⟩
  · rw [carryOut_empty hhand]
    exact .inl h
  · rw [hhand] at hfollows hleads
    rw [carryOut_some hdisk (by rw [hhand]; rfl) rfl, Staged.carries_set]
    have hs : x.disk side = s := hleads
    rw [hs]
    exact h.finish hdisk hfollows rfl
  · rw [hhand] at hfollows hleads
    obtain ⟨now', hrest⟩ := hleads
    rw [carryOut_some hdisk (by rw [hhand]; rfl) hrest]
    exact h.finish hdisk hfollows rfl

/-- What a step of the writer keeps. -/
theorem work (h : Sound S start orders x) (now : UInt64) : Stands S start orders (x.work now) := by
  rw [Session.work]
  split
  · exact .inl h.take
  · next w side hhand hdisk =>
    obtain ⟨hrunning, s, hfollows, hleads⟩ := h.disk side hdisk
    rw [hhand] at hfollows hleads
    refine .inl ⟨h.asking, fun side' hside' => ?_⟩
    obtain rfl := Option.some.inj (hdisk.symm.trans hside')
    obtain rfl : x.disk side = s := hleads
    exact ⟨hrunning, _, hfollows, now, Staged.carries_set now w.key w.content _⟩
  · next w r side hhand hdisk =>
    obtain ⟨-, s, hfollows, hleads⟩ := h.disk side hdisk
    rw [hhand] at hfollows hleads
    obtain ⟨now', hrest⟩ := hleads
    exact h.finish hdisk hfollows hrest.symm
  · next w change rest side hhand hdisk =>
    obtain ⟨hrunning, s, hfollows, hleads⟩ := h.disk side hdisk
    rw [hhand] at hfollows hleads
    refine .inl ⟨h.asking, fun side' hside' => ?_⟩
    obtain rfl := Option.some.inj hside'
    exact ⟨hrunning, s, hfollows, hleads⟩
  · exact .inl h

theorem diskStats (h : Sound S start orders x) (hidle : x.hand.Idle) :
    Sound S start orders (x.call LayeredCache.diskStats) := by
  rcases hdisk : x.state.cache.disk with _ | side
  · rw [call, run_diskStats_none hdisk]
    exact h
  · obtain ⟨hrunning, s, hfollows, hleads⟩ := h.disk side hdisk
    obtain rfl := hleads.eq hidle
    obtain ⟨ds, hensure, hfollows'⟩ := hfollows.run_ensureIndex
    rw [call, state_diskStats hdisk, DiskCache.run_stats hensure]
    refine ⟨h.asking, fun side' hside' => ?_⟩
    obtain rfl := Option.some.inj hside'
    exact ⟨hrunning, ds, hfollows', Hand.leads_self hidle ds⟩

theorem look (h : Sound S start orders x) : Sound S start orders x.look := by
  rw [Session.look]
  split
  · exact h
  · next hnot =>
    refine h.diskStats ?_
    rcases hhand : x.hand with _ | w | ⟨w, rest⟩
    · trivial
    · trivial
    · exact hnot w rest hhand

end Sound

namespace Stands

theorem take (h : Stands S start orders x) : Stands S start orders x.take :=
  h.imp Sound.take fun hstopped => by rw [hstopped.take_eq]; exact hstopped

theorem carryOut (h : Stands S start orders x) (now : UInt64) :
    Stands S start orders (x.carryOut now) := by
  rcases h with h | h
  · exact h.carryOut now
  · rw [carryOut_empty h.hand]
    exact .inr h

theorem drain (h : Stands S start orders x) (now : UInt64) (n : Nat) :
    Stands S start orders (x.drain now n) := by
  induction n generalizing x with
  | zero => exact h
  | succ n ih => exact ih (h.take.carryOut now)

theorem emptied (h : Stands S start orders x) : Stands S start orders x.emptied :=
  h.imp (fun h => h.of_same rfl rfl rfl h.asking) fun h => ⟨h.hand, h.disk, h.overfull⟩

end Stands

/-! ### Calls -/

/-- Clearing is one more order, which is carried out at once. -/
theorem Stands.clear (h : Stands S start orders x) (hhand : x.hand = .empty) (hasking : x.asking = none)
    (now : UInt64) :
    let y := x.call (LayeredCache.clear now)
    Stands S start (orders ++ [.clear]) y ∧ (y.Forgotten ∨ start.Overfull orders) := by
  intro y
  have hspent : Stands S start orders (x.spent now) := h.emptied.drain now _
  have hasking' : ∀ a, y.asking = some a →
      a.rest = Staged.get a.key ∨ a.rest = Staged.getValue a.key ∨ ∃ r, a.rest = .done r :=
    fun a ha => by cases hasking ▸ ha
  have hhand' : y.hand = .empty := hhand
  rcases hdisk : (x.spent now).state.cache.disk with _ | side
  · have hstate : y.state = (x.spent now).state := congrArg Prod.snd (run_clear_none hhand hdisk)
    have hnone : ∀ side, y.state.cache.disk ≠ some side := by
      rw [hstate, hdisk]
      intro side hside
      cases hside
    exact ⟨.inl ⟨hasking', fun side hside => absurd hside (hnone side)⟩,
      .inl fun side hside => absurd hside (hnone side)⟩
  have hstate : ∀ {r ds}, DiskCache.clear.run.run ((x.spent now).disk side) = (r, ds) →
      y.state = (x.spent now).stepped side ds := fun hrun =>
    congrArg Prod.snd (run_clear_some hhand hdisk hrun)
  rcases hspent with hspent | hspent
  · obtain ⟨hrunning, s, hfollows, hleads⟩ := hspent.disk side hdisk
    have hnil : (x.spent now).queue = [] := queue_spent hhand
    rw [queue, hdisk] at hnil
    have hqueue : side.queue = [] := hnil
    rw [hand_spent hhand] at hfollows hleads
    rw [hqueue] at hfollows
    have hs : (x.spent now).disk side = s := hleads
    obtain ⟨ds, hclear, hfollows', haccounted⟩ := hfollows.run_clear now
    rw [← hs] at hclear
    have hdisk' : y.state.cache.disk = some { side with cache := ds.cache } := by
      rw [hstate hclear]
      rfl
    have hdrive : y.state.drive = ds.drive := by
      rw [hstate hclear]
      rfl
    refine ⟨.inl ⟨hasking', fun side' hside' => ?_⟩, .inl fun side' hside' => ?_⟩
    · obtain rfl := Option.some.inj (hdisk'.symm.trans hside')
      rw [hhand', Session.disk, hdrive, hqueue]
      exact ⟨hrunning, ds, hfollows', rfl⟩
    · obtain rfl := Option.some.inj (hdisk'.symm.trans hside')
      rw [Session.disk, hdrive]
      exact haccounted.empty.2
  · have hstopped : Stopped start (orders ++ [.clear]) y := by
      refine hspent.of_disk (hhand'.trans hspent.hand.symm) fun side' hside' => ?_
      obtain rfl := Option.some.inj (hdisk.symm.trans hside')
      rw [hstate rfl]
      exact ⟨_, rfl⟩
    exact ⟨.inr hstopped, .inr hspent.overfull⟩

variable [Json.Form V]

/-- A store that is accepted is one more order. -/
theorem Sound.store (h : Sound S start orders x) {key : String} {v : V}
    (hsize : (bytesOf v).size < UInt64.size) :
    Sound S start (orders ++ x.requested now (.store key v)) (x.call (LayeredCache.store now key v)) := by
  rw [requested, call, LayeredCache.run_store]
  rcases hset : x.state.cache.memory.set now key v (UInt64.ofNat (bytesOf v).size) with
    _ | ⟨stored, memory⟩
  · rw [List.append_nil]
    exact h
  · refine ⟨h.asking, fun side' hside' => ?_⟩
    obtain ⟨side, hdisk, rfl⟩ := Option.map_eq_some_iff.1 hside'
    obtain ⟨hrunning, s, hfollows, hleads⟩ := h.disk side hdisk
    simp only [hdisk, LayeredCache.DiskSide.enqueue]
    split
    · have hnext := hfollows.order (w := ⟨key, bytesOf v⟩) hsize
      rw [List.append_assoc] at hnext
      exact ⟨hrunning, s, hnext, hleads⟩
    · rw [List.append_nil]
      exact ⟨hrunning, s, hfollows, hleads⟩

/-- A lookup that is begun changes nothing on the disk. -/
theorem Sound.ask (h : Sound S start orders x) (now : UInt64) (key : String) :
    Sound S start orders (x.ask now key) := by
  rcases hget : x.state.cache.memory.get now key with ⟨_ | v, memory⟩
  · rcases hdisk : x.state.cache.disk with _ | side
    · obtain ⟨s', hlookup, halike⟩ := LayeredCache.run_lookup_of_noDisk hget hdisk
      simp only [Session.ask, hget, hdisk, call, hlookup]
      exact h.of_same rfl halike.disk halike.drive h.asking
    · simp only [Session.ask, hget, hdisk]
      refine h.of_same rfl rfl rfl fun a ha => ?_
      cases ha
      exact .inl rfl
  · obtain ⟨s', hlookup, halike⟩ := LayeredCache.run_lookup_of_memory hget
    simp only [Session.ask, hget, call, hlookup]
    exact h.of_same rfl halike.disk halike.drive h.asking

/-- A lookup that has not been overtaken changes nothing on the disk. -/
theorem Sound.proceed (h : Sound S start orders x) (horderly : Orderly S gone x)
    (hovertaken : ¬ x.Overtaken) (now : UInt64) : Sound S start orders (x.proceed now) := by
  rcases hasking : x.asking with _ | ⟨key, p⟩
  · simp only [Session.proceed, hasking]
    exact h
  by_cases hp : ∃ r, p = .done r
  · obtain ⟨r, rfl⟩ := hp
    rcases hrun : (conclude (V := V) now key r).run.run x.state with ⟨r', s'⟩
    obtain ⟨hdisk, hdrive, -⟩ := LayeredCache.conclude_cases hrun
    simp only [Session.proceed, hasking, call, hrun]
    exact h.of_same rfl hdisk hdrive fun a ha => by cases ha
  have hstep : ∀ r, p ≠ .done r := fun r hr => hp ⟨r, hr⟩
  rcases hdisk : x.state.cache.disk with _ | side
  · rw [proceed_step_none hasking hstep hdisk]
    exact h
  have hds := (horderly.disk side hdisk).1
  have hrest : p = Staged.get key ∨ p = Staged.getValue key ∨ ∃ r, p = .done r :=
    h.asking _ hasking
  -- Neither of the two steps changes the disk layer.
  have hread : ∃ q, p.advance (x.disk side) = (q, x.disk side) ∧
      (q = Staged.getValue key ∨ ∃ r, q = .done r) := by
    rcases hrest with rfl | rfl | ⟨r, rfl⟩
    · rcases hds.advance_get key with hmissing | ⟨hfound, -⟩
      · exact ⟨_, hmissing, .inr ⟨_, rfl⟩⟩
      · exact ⟨_, hfound, .inl rfl⟩
    · obtain ⟨bytes, hvalue⟩ := hds.exists_value key fun hmissing =>
        hovertaken ⟨key, side, hasking, hdisk, hmissing⟩
      exact ⟨_, hds.advance_getValue hvalue, .inr ⟨_, rfl⟩⟩
    · exact absurd rfl (hstep r)
  obtain ⟨q, hq, hrest'⟩ := hread
  rw [proceed_step hasking hstep hdisk, hq, stepped_self hdisk]
  refine h.of_same rfl rfl rfl fun a ha => ?_
  cases ha
  exact .inr hrest'

/-- What a call keeps. -/
theorem Stands.make (h : Stands S start orders x) (hasking : x.asking = none) (now : UInt64)
    {request : Request V}
    (hsize : ∀ key v, request = .store key v → (bytesOf v).size < UInt64.size) :
    Stands S start (orders ++ x.requested now request) (x.make now request) := by
  rcases h with h | h
  swap
  · exact .inr (h.make now request)
  cases request with
  | store key v => exact .inl (h.store (hsize key v rfl))
  | clear =>
    exact ((h.carryOut now).clear (hand_carryOut x now) ((asking_carryOut x now).trans hasking) now).1
  | lookup key =>
    rw [requested, List.append_nil]
    exact .inl (h.ask now key)
  | diskStats =>
    rw [requested, List.append_nil]
    exact .inl h.look
  | clearMemory =>
    rw [requested, List.append_nil]
    exact .inl (h.of_same rfl rfl rfl h.asking)
  | dropMemory key =>
    rw [requested, List.append_nil]
    exact .inl (h.of_same rfl rfl rfl h.asking)
  | flush =>
    rw [requested, List.append_nil, make_flush]
    exact (h.carryOut now).drain now _

/-- What a turn keeps in which no lookup is overtaken. -/
theorem Stands.play (h : Stands S start orders x) (horderly : Orderly S gone x) (now : UInt64)
    {turn : Turn V} (hovertaken : turn = .proceed → ¬ x.Overtaken)
    (hsize : ∀ key v, turn = .call (.store key v) → (bytesOf v).size < UInt64.size) :
    Stands S start (orders ++ x.ordered now turn) (x.play now turn) := by
  cases turn with
  | call request =>
    rcases hasking : x.asking with _ | a
    · simp only [Session.play, ordered, hasking, Option.isNone_none, if_true]
      exact h.make hasking now fun key v hrequest => hsize key v (congrArg _ hrequest)
    · simp only [Session.play, ordered, hasking, Option.isNone_some, Bool.false_eq_true, if_false,
        List.append_nil]
      exact h
  | proceed =>
    rcases h with h | h
    · rw [ordered, List.append_nil]
      exact .inl (h.proceed horderly (hovertaken rfl) now)
    · exact .inr (h.proceed now)
  | work =>
    rcases h with h | h
    · rw [ordered, List.append_nil]
      exact h.work now
    · exact .inr (h.play now .work)

/-- What turns keep in which no lookup is overtaken. -/
theorem Stands.playAll {turns : List (UInt64 × Turn V)} (h : Stands S start orders x)
    (horderly : Orderly S (fun _ => False) x) (hundisturbed : x.Undisturbed turns)
    (hsize : ∀ t key v, (t, .call (.store key v)) ∈ turns → (bytesOf v).size < UInt64.size) :
    Stands S start (orders ++ x.orders turns) (x.playAll turns) := by
  induction turns generalizing x orders with
  | nil =>
    rw [Session.orders, List.append_nil]
    exact h
  | cons head turns ih =>
    obtain ⟨now, turn⟩ := head
    obtain ⟨hovertaken, hlater⟩ := hundisturbed
    have hstep : Stands S start (orders ++ x.ordered now turn) (x.play now turn) :=
      h.play horderly now hovertaken fun key v hturn =>
        hsize now key v (hturn ▸ List.mem_cons_self ..)
    rw [Session.orders, ← List.append_assoc]
    exact ih hstep (horderly.play now fun _ _ _ hgone => hgone) hlater
      fun t key v hmem => hsize t key v (List.mem_cons_of_mem _ hmem)

end InTurn

/-! ## Barriers -/

/-- A new cache on a directory that calls have filled. -/
theorem exists_sound_new {settings : Settings} {c : LayeredCache V} {drive : Drive} {d : DiskState}
    (hnew : LayeredCache.new settings true = .ok c)
    (hfresh : Fresh drive.volume settings.disk.directory) (hfaults : drive.faults = [])
    (hfilled : DiskCache.Reaches ⟨.new settings.disk, drive⟩ d) :
    ∃ S, let first : Session V := { state := ⟨c, d.drive⟩ }
      Orderly S (fun _ => False) first ∧ Sound S ⟨.new settings.disk, d.drive⟩ [] first := by
  obtain ⟨S, hpath, hstart⟩ := Shelf.exists_accounted_new settings.disk drive hfresh hfaults
  obtain ⟨m, hm⟩ := hstart.of_reaches hfilled
  have hopened : S.Accounted ⟨DiskCache.new settings.disk, d.drive⟩ m := hm.reopen hpath.symm
  have hside : ∀ side, c.disk = some side → side.cache = .new settings.disk ∧ side.queue = [] ∧
      side.running = true := by
    intro side hside
    cases huse : settings.useDisk with
    | false =>
      rw [LayeredCache.new, huse] at hnew
      cases hnew
      cases hside
    | true =>
      obtain ⟨-, hdisk⟩ := LayeredCache.new_parts huse hnew
      obtain rfl := Option.some.inj (hdisk.symm.trans hside)
      exact ⟨rfl, rfl, rfl⟩
  refine ⟨S, ⟨fun _ _ hgone => hgone, fun a ha => (by cases ha), fun now p hp => (by cases hp),
    fun side hdisk => ?_⟩, fun a ha => (by cases ha), fun side hdisk => ?_⟩
  · obtain ⟨hcache, hqueue, -⟩ := hside side hdisk
    rw [disk, hcache, hqueue]
    exact ⟨hopened.orderly (fun _ hgone => hgone.elim) fun p hp => (by cases hp),
      fun w hw => (by cases hw)⟩
  · obtain ⟨hcache, hqueue, hrunning⟩ := hside side hdisk
    rw [disk, hcache, hqueue]
    exact ⟨hrunning, _, ⟨hpath.symm, fun w hw => (by cases hw), [], m, rfl, .refl hopened⟩, rfl⟩

section Barriers

variable {S : Shelf} {start : DiskState} {orders : List DiskOrder} {x : Session V}

theorem Stands.works (h : Stands S start orders x) : x.Works ∨ start.Overfull orders :=
  h.imp (fun h side hside => (h.disk side hside).1) fun h => h.overfull

/-- While the writer works the orders have been carried out, but for what is in hand and what waits. -/
theorem Stands.carriedOut (h : Stands S start orders x) (hworks : x.Works) {side : DiskSide}
    (hdisk : x.state.cache.disk = some side) :
    ∃ s, start.CarriedOut orders s (x.hand.writes ++ side.queue) ∧ x.hand.Leads s (x.disk side) := by
  rcases h with h | h
  · obtain ⟨-, s, hfollows, hleads⟩ := h.disk side hdisk
    exact ⟨s, hfollows.carriedOut, hleads⟩
  · exact absurd hworks h.not_works

/-- With nothing in hand and nothing waiting all orders have been carried out. -/
theorem Stands.all_carriedOut (h : Stands S start orders x) (hworks : x.Works) (hhand : x.hand = .empty)
    (hqueue : x.queue = []) {side : DiskSide} (hdisk : x.state.cache.disk = some side) :
    start.CarriedOut orders (x.disk side) [] := by
  obtain ⟨s, hcarried, hleads⟩ := h.carriedOut hworks hdisk
  rw [queue, hdisk] at hqueue
  have hnil : side.queue = [] := hqueue
  rw [hhand, hnil] at hcarried
  rw [hhand] at hleads
  have hs : x.disk side = s := hleads
  rw [hs]
  exact hcarried

end Barriers

/-- **Flushing and clearing are barriers**, for every length of the queue, whatever the caller does and
whenever the writer and a lookup take their steps.

If no lookup is overtaken, the stores that have been accepted are carried out on the disk at any time,
each once and in turn, but for the one in hand, which is on the way to its end, and those that wait. A
flush leaves none of these. Nothing ends the writer but a value that comes to a disk which cannot count
it and the others in a word.

In every case clearing empties both layers, and from then on every lookup of a key misses until the key
is stored again. -/
theorem flush_and_clear [Json.Form V] {settings : Settings} {c : LayeredCache V} {drive : Drive}
    {d : DiskState} (hnew : LayeredCache.new settings true = .ok c)
    (hfresh : Fresh drive.volume settings.disk.directory) (hfaults : drive.faults = [])
    (hfilled : DiskCache.Reaches ⟨.new settings.disk, drive⟩ d) (turns : List (UInt64 × Turn V))
    (now : UInt64) :
    let start : DiskState := ⟨.new settings.disk, d.drive⟩
    let first : Session V := { state := ⟨c, d.drive⟩ }
    let x := first.playAll turns
    let orders := first.orders turns
    let flushed := x.make now .flush
    let cleared := x.make now .clear
    (first.Undisturbed turns →
      (∀ t key v, (t, .call (.store key v)) ∈ turns → (bytesOf v).size < UInt64.size) →
      (x.Works ∧ flushed.Works ∨ start.Overfull orders) ∧
      (x.Works → ∀ side, x.state.cache.disk = some side →
        ∃ s, start.CarriedOut orders s (x.hand.writes ++ side.queue) ∧
          x.hand.Leads s (x.disk side)) ∧
      (flushed.Works → ∀ side, flushed.state.cache.disk = some side →
        start.CarriedOut orders (flushed.disk side) []) ∧
      (x.asking = none → cleared.Forgotten ∨ start.Overfull orders)) ∧
    (((flush now).run.run (x.carryOut now).state).1 = .ok () ∧
      flushed.hand = .empty ∧ flushed.queue = []) ∧
    (x.asking = none → ((LayeredCache.clear now).run.run (x.carryOut now).state).1 = .ok () ∧
      cleared.Empty ∧
      ∀ (later : List (UInt64 × Turn V)) (key : String), (∀ t v, (t, .call (.store key v)) ∉ later) →
        ∀ r, (key, r) ∈ cleared.answers later → r = .ok none) := by
  intro start first x orders flushed cleared
  obtain ⟨S, horderly, hsound⟩ :
      ∃ S, Orderly S (fun _ => False) first ∧ Sound S start [] first :=
    exists_sound_new hnew hfresh hfaults hfilled
  have hhand : (x.carryOut now).hand = .empty := hand_carryOut x now
  have hflushed : flushed = (x.carryOut now).drain now (x.carryOut now).queue.length :=
    make_flush x now
  have hnone : flushed.hand = .empty := by
    rw [hflushed]
    exact hand_drain hhand now _
  have hnil : flushed.queue = [] := by
    rw [hflushed]
    exact queue_drain hhand (Nat.le_refl _)
  refine ⟨fun hundisturbed hsize => ?_, ⟨by rw [run_flush hhand], hnone, hnil⟩, fun hasking => ?_⟩
  · have hx : Stands S start orders x := Stands.playAll (.inl hsound) horderly hundisturbed hsize
    have hstands : Stands S start orders flushed := by
      rw [hflushed]
      exact (hx.carryOut now).drain now _
    refine ⟨?_, fun hworks side hdisk => hx.carriedOut hworks hdisk,
      fun hworks side hdisk => hstands.all_carriedOut hworks hnone hnil hdisk, fun hasking =>
        ((hx.carryOut now).clear hhand ((asking_carryOut x now).trans hasking) now).2⟩
    rcases hx.works with hworks | hover
    · exact hstands.works.imp (fun hworks' => ⟨hworks, hworks'⟩) id
    · exact .inr hover
  · have hx : Orderly S (fun _ => False) x := horderly.playAll fun _ _ _ _ hgone => hgone
    have hasking' : (x.carryOut now).asking = none := (asking_carryOut x now).trans hasking
    obtain ⟨hanswer, hempty, -⟩ := (hx.carryOut now).clear hhand hasking' now fun _ => False
    refine ⟨hanswer, hempty, fun later key hstored r hr => ?_⟩
    -- The keys that are gone are those that are not stored again.
    obtain ⟨-, -, hcleared⟩ := (hx.carryOut now).clear hhand hasking' now
      fun k => ∀ t v, (t, .call (.store k v)) ∉ later
    exact hcleared.answers (fun t k v hmem hgone => hgone t v hmem) hr hstored

/-- A cache whose queue holds one write. -/
def narrowSettings : Settings :=
  { disk := { directory := "cache" }, queueCapacity := 1 }

/-- A value is stored, and the writer takes its write. -/
def heldTurns : List (UInt64 × Turn Json) :=
  [(1, .call (.store "a" (Json.ofNat 1))), (2, .work)]

/-- The write of the value. -/
def heldWrite : PendingWrite :=
  ⟨"a", bytesOf (Json.ofNat 1)⟩

/-- A flush and clearing wait for the write that the writer holds. -/
theorem flush_and_clear_held : ∃ c : LayeredCache Json,
    LayeredCache.new narrowSettings true = .ok c ∧
      let first : Session Json := { state := ⟨c, ⟨volumeOf "cache", []⟩⟩ }
      let x := first.playAll heldTurns
      let flushed := x.make 3 .flush
      let cleared := x.make 3 .clear
      x.hand = .taken heldWrite ∧ first.orders heldTurns = [.put heldWrite] ∧
        (∃ side, flushed.state.cache.disk = some side ∧
          DiskState.CarriedOut ⟨.new narrowSettings.disk, ⟨volumeOf "cache", []⟩⟩ [.put heldWrite]
            (flushed.disk side) []) ∧
        cleared.Empty ∧
        ∃ n, cleared.answers ((4, .call (.lookup "a")) :: List.replicate n (4, .proceed)) =
          [("a", .ok none)] := by
  have hfresh : Fresh (volumeOf "cache") narrowSettings.disk.directory :=
    fresh_volumeOf (by decide)
  have hfaults : (⟨volumeOf "cache", []⟩ : Drive).faults = [] := rfl
  obtain ⟨c, hnew⟩ : ∃ c : LayeredCache Json, LayeredCache.new narrowSettings true = .ok c :=
    ⟨_, rfl⟩
  have hsize : ∀ t key v, (t, .call (.store key v)) ∈ heldTurns → (bytesOf v).size < UInt64.size := by
    intro t key v hmem
    simp only [heldTurns, List.mem_cons, Prod.mk.injEq, Turn.call.injEq, Request.store.injEq,
      reduceCtorEq, and_false, or_false, List.not_mem_nil] at hmem
    obtain ⟨-, -, rfl⟩ := hmem
    decide
  have hbarrier := flush_and_clear hnew hfresh hfaults .start heldTurns 3
  refine ⟨c, hnew, ?_⟩
  cases hnew
  dsimp only at hbarrier ⊢
  generalize hx : Session.playAll _ heldTurns = x at hbarrier ⊢
  obtain ⟨hundisturbed, -, hclear⟩ := hbarrier
  obtain ⟨-, -, hflushed, -⟩ := hundisturbed ⟨nofun, nofun, trivial⟩ hsize
  -- The write that the writer holds is carried out without a failure.
  obtain ⟨S, -, hstart⟩ :=
    Shelf.exists_accounted_new narrowSettings.disk ⟨volumeOf "cache", []⟩ hfresh hfaults
  have hnone : DiskIndex.Fits (Content.indexed fun _ => none) 0 :=
    Content.fits (fun _ => 0) [] (fun _ _ hp => by cases hp) (Nat.zero_le _)
  obtain ⟨ds, m, hset, -⟩ : ∃ ds m, (DiskCache.set 3 "a" heldWrite.content).run.run
      ⟨DiskCache.new narrowSettings.disk, ⟨volumeOf "cache", []⟩⟩ = (.ok true, ds) ∧ S.Accounted ds m ∧
        _ ∧ _ := hstart.exists_set 3 "a" hnone (by decide) (by decide)
  have hhand : x.hand = .taken heldWrite := hx ▸ rfl
  have hdisk : x.state.cache.disk =
      some { cache := .new narrowSettings.disk, queue := [], capacity := 1 } := hx ▸ rfl
  have hdrive : x.state.drive = ⟨volumeOf "cache", []⟩ := hx ▸ rfl
  have hasking : x.asking = none := hx ▸ rfl
  have hcarried : x.carryOut 3 = x.finish
      { cache := .new narrowSettings.disk, queue := [], capacity := 1 } (.ok true) ds := by
    refine carryOut_some hdisk (by rw [hhand]; rfl) ((Staged.carries_set ..).trans ?_)
    rw [disk, hdrive]
    exact hset
  have hflush : (x.make 3 .flush).state.cache.disk =
      some { cache := ds.cache, queue := [], capacity := 1 } := by
    rw [make_flush, hcarried]
    rfl
  have hworks : (x.make 3 .flush).Works := fun side hside => by
    obtain rfl := Option.some.inj (hflush.symm.trans hside)
    rfl
  obtain ⟨-, hempty, hlater⟩ := hclear hasking
  obtain ⟨n, -, hanswers⟩ :=
    exists_proceed_lookup (x := x.make 3 .clear) ((asking_carryOut x 3).trans hasking) 4 "a"
  have hmiss := hlater ((4, .call (.lookup "a")) :: List.replicate n (4, .proceed)) "a" (by simp) _
    (by rw [hanswers]; exact List.mem_singleton_self _)
  exact ⟨hhand, rfl, ⟨_, hflush, hflushed hworks _ hflush⟩, hempty, n, by rw [hanswers, hmiss]⟩

end Session

/-! ## A store that is lost -/

namespace Shelf

/-- A disk layer with a budget of one byte. -/
structure Tight (S : Shelf) (m : Content) (s : DiskState) : Prop where
  accounted : S.Accounted s m
  fits : DiskIndex.Fits m.indexed 1
  maxSize : s.cache.maxSize = 1

/-- For another value of one byte the value that is there must go. -/
theorem Tight.run_set {S : Shelf} {m : Content} {s : DiskState} {content : ByteArray}
    (h : S.Tight m s) (now : UInt64) (key : String) (hsize : content.size = 1) :
    ∃ s' m' sc, (DiskCache.set now key content).run.run s = (.ok true, s') ∧ S.Tight m' s' ∧
      m' (keyDigest key) = some (sc, content) ∧ sc.key = key ∧
      ∀ d p, d ≠ keyDigest key → m d = some p → p.2.size = 1 → m' d = none := by
  have hbudget : s.cache.maxSize.toNat = 1 := by rw [h.maxSize]; rfl
  obtain ⟨s', m', sc, hrun, haccounted, hstored, hkey, hfits, hmax, -, hothers⟩ :=
    h.accounted.exists_stored now key content h.fits (by rw [hsize]; decide)
      (Nat.le_of_eq (hsize.trans hbudget.symm))
  rw [hbudget] at hfits
  refine ⟨s', m', sc, hrun, ⟨haccounted, hfits, hmax.trans h.maxSize⟩, hstored, hkey, ?_⟩
  intro d p hne hp hone
  refine (hothers d hne).resolve_right fun hsame => ?_
  have hword : ∀ d p, m' d = some p → p.2.size = 1 → DiskIndex.sizeIn m'.indexed d = 1 := by
    intro d p hp hone
    rw [DiskIndex.sizeIn, Content.indexed, hp, ← hone]
    exact (haccounted.own d p hp).2
  have hsum := hfits [keyDigest key, d] (by simpa using hne.symm)
  rw [List.map_cons, List.map_cons, List.map_nil, List.sum_cons, List.sum_cons, List.sum_nil,
    hword _ _ hstored hsize, hword d p (hsame.trans hp) hone] at hsum
  omega

theorem Tight.run_put {S : Shelf} {m : Content} {s : DiskState} (h : S.Tight m s) (t : UInt64)
    {w : PendingWrite} (hsize : w.content.size = 1) :
    ∃ m' sc, S.Tight m' (((DiskOrder.put w).carryOut t).run.run s).2 ∧
      m' (keyDigest w.key) = some (sc, w.content) := by
  obtain ⟨s', m', sc, hrun, h', hstored, -⟩ := h.run_set t w.key hsize
  rw [DiskOrder.carryOut, run_bind_pure, hrun]
  exact ⟨m', sc, h', hstored⟩

end Shelf

namespace Session

/-- **A lookup that is overtaken takes away what has been stored in the meantime.** The writer drops the
entry of the key for the sake of another one, and then stores it again. -/
theorem exists_overtaken [Json.Form V] {S : Shelf} {m₁ m₂ m₃ : Content} {x : Session V}
    {side : DiskSide} {w w' : PendingWrite} {p : Sidecar × ByteArray} {kept kept' : Bool}
    {d₂ d₃ : DiskState} {t t' : UInt64} (hhand : x.hand = .empty)
    (hasking : x.asking = some ⟨w'.key, Staged.get w'.key⟩) (hdisk : x.state.cache.disk = some side)
    (hqueue : side.queue = [w, w']) (h₁ : S.Accounted (x.disk side) m₁)
    (hp : m₁ (keyDigest w'.key) = some p) (hkey : p.1.key = w'.key)
    (hset : (DiskCache.set t w.key w.content).run.run (x.disk side) = (.ok kept, d₂))
    (h₂ : S.Accounted d₂ m₂) (hgone : m₂ (keyDigest w'.key) = none)
    (hset' : (DiskCache.set t' w'.key w'.content).run.run d₂ = (.ok kept', d₃))
    (h₃ : S.Accounted d₃ m₃) :
    ∃ y d₄, x.Comes [] y ∧ y.hand = .empty ∧ y.asking = none ∧
      y.state.cache.disk = some { side with cache := d₄.cache, queue := [] } ∧
      y.state.drive = d₄.drive ∧ S.Settled d₄ (m₃.without [keyDigest w'.key]) := by
  have hstep : ∀ r, Staged.get w'.key ≠ .done r := fun r hr => by cases hr
  have hstep' : ∀ r, Staged.getValue w'.key ≠ .done r := fun r hr => by cases hr
  let removal : Staged (Option ByteArray) := do
    Staged.removeDigest (keyDigest w'.key)
    return none
  -- The lookup reads the sidecar.
  let x₁ : Session V := { x with asking := some ⟨w'.key, Staged.getValue w'.key⟩ }
  have hread : x.Comes [] x₁ := by
    have hproceed : x.proceed t = x₁ := by
      rw [proceed_step hasking hstep hdisk, h₁.settled.advance_get hp hkey, stepped_self hdisk]
    exact hproceed ▸ comes_play x t .proceed
  -- The writer drops the entry.
  let side₂ : DiskSide := { side with cache := d₂.cache, queue := [w'] }
  let x₂ : Session V := { x₁ with state := x₁.stepped { side with queue := [w'] } d₂ }
  have hdropped : x₁.Comes [] x₂ := comes_carryOut (x := x₁) hhand hdisk hqueue hset
  -- The lookup finds the value gone.
  let x₃ : Session V := { x₂ with asking := some ⟨w'.key, removal⟩ }
  have hdisk₂ : x₂.state.cache.disk = some side₂ := rfl
  have hmissed : x₂.Comes [] x₃ := by
    have hself : x₂.stepped side₂ d₂ = x₂.state := stepped_self hdisk₂
    have hd₂ : x₂.disk side₂ = d₂ := rfl
    have hproceed : x₂.proceed t = x₃ := by
      rw [proceed_step rfl hstep' hdisk₂, hd₂, h₂.settled.advance_getValue hgone, hself]
    exact hproceed ▸ comes_play x₂ t .proceed
  -- The writer stores the entry again.
  let side₃ : DiskSide := { side with cache := d₃.cache, queue := [] }
  let x₄ : Session V := { x₃ with state := x₃.stepped { side₂ with queue := [] } d₃ }
  have hstored : x₃.Comes [] x₄ := comes_carryOut (x := x₃) hhand hdisk₂ rfl hset'
  -- The lookup takes it away.
  obtain ⟨d₄, hremove, h₄, -⟩ := h₃.settled.run_remove w'.key
  have hremoval : removal.run (x₄.disk side₃) = (.ok none, d₄) := by
    have hgone := Staged.carries_gone (keyDigest w'.key) (x₄.disk side₃)
    exact hgone.trans (run_bind_ok hremove)
  have hdisk₄ : x₄.state.cache.disk = some side₃ := rfl
  have hended := comes_proceed (x := x₄) hdisk₄ rfl t
  rw [hremoval] at hended
  rcases hconclude : (conclude (V := V) t w'.key (.ok none)).run.run (x₄.stepped side₃ d₄) with ⟨r, s'⟩
  rw [hconclude] at hended
  obtain ⟨hlast, hdrive, -⟩ := LayeredCache.conclude_cases hconclude
  exact ⟨_, d₄, (hread.trans hdropped).trans ((hmissed.trans hstored).trans hended), hhand, rfl, hlast,
    hdrive, h₄⟩

/-- A cache with room for nothing in memory, for one byte on the disk and for two writes in the
queue. -/
def tightSettings : Settings :=
  { memory := { maxSize := 0, ttlSeconds := none }
    disk := { directory := "cache", maxSize := 1 }
    queueCapacity := 2 }

/-- The cache with these settings, on an empty directory. -/
def tightStart : Session Json where
  state.cache.memory := .new tightSettings.memory
  state.cache.disk := some { cache := .new tightSettings.disk, capacity := 2 }
  state.drive := ⟨volumeOf "cache", []⟩

/-- The write of a number of one digit. -/
def digitWrite (key : String) (n : Nat) : PendingWrite :=
  ⟨key, bytesOf (Json.ofNat n)⟩

/-- Another value is stored and the first key again, which is then looked up. -/
def overtakenTurns : List (UInt64 × Turn Json) :=
  [(3, .call (.store "b" (Json.ofNat 2))), (3, .call (.store "a" (Json.ofNat 3))),
    (3, .call (.lookup "a"))]

/-- **A store that a flush has waited for may be lost**, though nothing has failed and its value fits. -/
theorem exists_lost_store :
    LayeredCache.new tightSettings true = .ok tightStart.state.cache ∧
      ∃ turns : List (UInt64 × Turn Json),
        let start : DiskState := ⟨.new tightSettings.disk, ⟨volumeOf "cache", []⟩⟩
        let x := tightStart.playAll turns
        let flushed := x.make 6 .flush
        let orders := [.put (digitWrite "a" 1), .put (digitWrite "b" 2), .put (digitWrite "a" 3)]
        tightStart.orders turns = orders ∧ x.asking = none ∧
          ((flush 6).run.run (x.carryOut 6).state).1 = .ok () ∧
          flushed.hand = .empty ∧ flushed.queue = [] ∧ flushed.Works ∧
          ∃ side, flushed.state.cache.disk = some side ∧
            ¬ start.CarriedOut orders (flushed.disk side) [] := by
  refine ⟨rfl, ?_⟩
  have hfresh : Fresh (volumeOf "cache") tightSettings.disk.directory :=
    fresh_volumeOf (by decide)
  obtain ⟨S, -, hstart⟩ :=
    Shelf.exists_accounted_new tightSettings.disk ⟨volumeOf "cache", []⟩ hfresh rfl
  have htight : S.Tight (fun _ => none) ⟨DiskCache.new tightSettings.disk, ⟨volumeOf "cache", []⟩⟩ :=
    ⟨hstart, Content.fits (fun _ => 0) [] (fun _ _ hp => by cases hp) (Nat.zero_le _), rfl⟩
  have ha : (digitWrite "a" 1).content.size = 1 := by decide
  have hb : (digitWrite "b" 2).content.size = 1 := by decide
  have ha' : (digitWrite "a" 3).content.size = 1 := by decide
  -- What the three stores do when they are carried out.
  obtain ⟨d₁, m₁, p₁, hset₁, h₁, hp₁, hkey, -⟩ := htight.run_set 2 "a" ha
  obtain ⟨d₂, m₂, p₂, hset₂, h₂, -, -, hgone⟩ := h₁.run_set 4 "b" hb
  obtain ⟨d₃, m₃, p₃, hset₃, h₃, -⟩ := h₂.run_set 5 "a" ha'
  have hmissing : m₂ (keyDigest "a") = none :=
    hgone _ _ LayeredCache.keyDigest_a_ne_b hp₁ ha
  -- The first one is carried out, and the others wait while the first key is looked up.
  let x₁ := tightStart.play 1 (.call (.store "a" (Json.ofNat 1)))
  let x₂ : Session Json :=
    { x₁ with state := x₁.stepped { cache := .new tightSettings.disk, capacity := 2 } d₁ }
  let x₃ := x₂.playAll overtakenTurns
  have hfirst : tightStart.Comes [.put (digitWrite "a" 1)] x₁ := comes_play tightStart 1 _
  have hstored : x₁.Comes [] x₂ := comes_carryOut (x := x₁) rfl rfl rfl hset₁
  have hasked : x₂.Comes [.put (digitWrite "b" 2), .put (digitWrite "a" 3)] x₃ :=
    ⟨overtakenTurns, rfl, rfl⟩
  let side₃ : DiskSide :=
    { cache := d₁.cache, queue := [digitWrite "b" 2, digitWrite "a" 3], capacity := 2 }
  have hhand₃ : x₃.hand = .empty := rfl
  have hasking₃ : x₃.asking = some ⟨"a", Staged.get "a"⟩ := rfl
  have hdisk₃ : x₃.state.cache.disk = some side₃ := rfl
  have hd₁ : d₁ = x₃.disk side₃ := rfl
  clear_value x₃
  rw [hd₁] at h₁ hset₂
  obtain ⟨y, d₄, hovertaken, hhand, hasking, hdisk₄, hdrive, h₄⟩ := exists_overtaken hhand₃ hasking₃
    hdisk₃ rfl h₁.accounted hp₁ hkey hset₂ h₂.accounted hmissing hset₃ h₃.accounted
  obtain ⟨turns, rfl, horders⟩ := hfirst.trans (hstored.trans (hasked.trans hovertaken))
  have hqueue : (tightStart.playAll turns).queue = [] := by rw [queue, hdisk₄]; rfl
  have hflushed : (tightStart.playAll turns).make 6 .flush = tightStart.playAll turns := by
    rw [make_flush, carryOut_empty hhand, hqueue]
    rfl
  refine ⟨turns, horders, hasking, ?_, ?_⟩
  · rw [carryOut_empty hhand, run_flush hhand]
  rw [hflushed]
  refine ⟨hhand, hqueue, fun side hside => ?_, _, hdisk₄, ?_⟩
  · obtain rfl := Option.some.inj (hdisk₄.symm.trans hside)
    rfl
  -- When nothing but the three orders is carried out the value is there.
  rintro ⟨done, hdone, hagrees, -⟩
  rw [List.map_nil, List.append_nil] at hdone
  obtain ⟨⟨t₁, _⟩, rest, rfl, rfl, hrest⟩ := List.map_eq_cons_iff.1 hdone
  obtain ⟨⟨t₂, _⟩, rest', rfl, rfl, hrest'⟩ := List.map_eq_cons_iff.1 hrest
  obtain ⟨⟨t₃, _⟩, last, rfl, rfl, hlast⟩ := List.map_eq_cons_iff.1 hrest'
  obtain rfl := List.map_eq_nil_iff.1 hlast
  obtain ⟨n₁, -, k₁, -⟩ := htight.run_put t₁ ha
  obtain ⟨n₂, -, k₂, -⟩ := k₁.run_put t₂ hb
  obtain ⟨n₃, p, k₃, hthere⟩ := k₂.run_put t₃ ha'
  have hstands : n₃ (keyDigest "a") = some (p, (digitWrite "a" 3).content) := hthere
  have hfile := k₃.accounted.settled.fileAt_value (isDigest_keyDigest "a")
  have hmissing₄ : (m₃.without [keyDigest "a"]) (keyDigest "a") = none :=
    if_pos (List.mem_singleton_self _)
  have hnone : S.fileAt d₄.drive.volume (keyDigest "a") valueEnding = none :=
    (h₄.fileAt_value (isDigest_keyDigest "a")).trans (congrArg _ hmissing₄)
  have hsame : d₄.drive.volume = _ := congrArg Drive.volume (hdrive.symm.trans hagrees)
  rw [hsame] at hnone
  have hboth := hnone.symm.trans hfile
  rw [hstands] at hboth
  cases hboth

end Session

end CodeGraph.Cache
