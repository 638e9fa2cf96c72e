import CodeGraph.Proofs.Cache.Layered
import CodeGraph.Proofs.Cache.Orders
import CodeGraph.Proofs.Cache.Staged

/-!
# A cache between its caller and its writer

A cache is shared by its caller and by the writer, which takes the waiting writes one by one and
carries each out after it has taken it (`Session`). The caller makes its calls in the meantime, so there
may be one write more in hand than the queue holds.

Both use the disk layer, the writer for its stores and the caller for its lookups. Neither waits for the
other: a store and a lookup go on step by step (`Session.work`, `Session.proceed`), and the steps may
come in any order. A caller waits for the end of a lookup before its next call. To flush or to clear it
waits for the writer, whose steps are then the only ones (`Session.exists_work_flush`).

When nothing comes between its steps a lookup does what `LayeredCache.lookup` does
(`Session.exists_proceed_lookup`).
-/

namespace CodeGraph.Cache

open LayeredCache (withDisk withMemory lookup store flush diskStats drainOne drainMany change)

/-! ## Lookups in two parts -/

namespace LayeredCache

variable {V : Type} [Json.Form V]

/-- Keeps a value that the disk has answered in memory. -/
def loaded (now : UInt64) (key : String) :
    Option (Except CacheError (Option ByteArray)) → LayeredM V (Option V)
  | some (.ok (some bytes)) =>
    match Json.decodeBytes Json.Form.read bytes with
    | .ok v => do
      keepInMemory now key v bytes.size
      return some v
    | .error _ => return none
  | _ => return none

/-- Counts what the disk has answered. -/
def counted : Option V → LayeredM V (Option V)
  | some v => do
    change fun c => { c with diskHits := c.diskHits + 1 }
    return some v
  | none => do
    change fun c => { c with misses := c.misses + 1 }
    return none

/-- Ends a lookup with the answer of the disk layer. -/
def conclude (now : UInt64) (key : String) (found : Except CacheError (Option ByteArray)) :
    LayeredM V (Option V) := do
  counted (← loaded now key (some found))

variable {s s' : LayeredState V} {side : DiskSide} {now : UInt64} {key : String}
  {memory : MemoryCache V} {found : Except CacheError (Option ByteArray)}

/-- A lookup that memory does not answer asks the disk layer and ends with its answer. -/
theorem run_lookup_conclude {ds : DiskState} (hget : s.cache.memory.get now key = (none, memory))
    (hdisk : s.cache.disk = some side)
    (hrun : (DiskCache.get key).run.run ⟨side.cache, s.drive⟩ = (found, ds)) :
    (lookup now key).run.run s = (conclude now key found).run.run
      (withDisk (withMemory s memory) { side with cache := ds.cache } ds.drive) := by
  have hdisk' : (withMemory s memory).cache.disk = some side := hdisk
  have hload : (getFromDisk (V := V) now key).run.run (withMemory s memory) =
      (loaded now key (some found)).run.run
        (withDisk (withMemory s memory) { side with cache := ds.cache } ds.drive) := by
    have hanswer := run_onDisk hdisk' (DiskCache.get key)
    have hdrive : (withMemory s memory).drive = s.drive := rfl
    rw [hdrive, hrun] at hanswer
    rw [getFromDisk, run_bind_ok hanswer]
    rfl
  rw [lookup, run_bind_ok (run_get s), hget]
  simp only
  rw [run_bind_ok (run_changeMemory s memory), conclude, run_bind, run_bind, hload]
  rfl

/-- The end of a lookup answers what the disk has answered, if anything, and keeps it in memory. -/
theorem conclude_cases {r : Except CacheError (Option V)}
    (h : (conclude now key found).run.run s = (r, s')) :
    s'.cache.disk = s.cache.disk ∧ s'.drive = s.drive ∧
      (s'.cache.memory = s.cache.memory ∧ (r = .ok none ∨ ∃ bytes, found = .ok (some bytes)) ∨
        ∃ bytes v stored, found = .ok (some bytes) ∧
          s.cache.memory.set now key v (UInt64.ofNat bytes.size) = some (stored, s'.cache.memory)) := by
  rcases found with e | _ | bytes
  · cases h
    exact ⟨rfl, rfl, .inl ⟨rfl, .inl rfl⟩⟩
  · cases h
    exact ⟨rfl, rfl, .inl ⟨rfl, .inl rfl⟩⟩
  · rw [conclude, loaded] at h
    rcases hdecode : (Json.decodeBytes Json.Form.read bytes : Json.Decoded V) with e | v
    · rw [hdecode] at h
      cases h
      exact ⟨rfl, rfl, .inl ⟨rfl, .inl rfl⟩⟩
    · rw [hdecode] at h
      simp only [bind_assoc] at h
      rw [run_bind, run_keepInMemory] at h
      rcases hset : s.cache.memory.set now key v (UInt64.ofNat bytes.size) with _ | ⟨stored, memory⟩
      · rw [hset] at h
        cases h
        exact ⟨rfl, rfl, .inl ⟨rfl, .inr ⟨bytes, rfl⟩⟩⟩
      · rw [hset] at h
        cases h
        exact ⟨rfl, rfl, .inr ⟨bytes, v, stored, rfl, hset⟩⟩

end LayeredCache

open LayeredCache (conclude)

/-! ## Sessions -/

/-- What the writer has in hand. -/
inductive Hand where
  | empty
  /-- A write that has been taken and not yet begun. -/
  | taken (w : PendingWrite)
  /-- A write that is being carried out, and what is left to do of it. -/
  | busy (w : PendingWrite) (rest : Staged Bool)

namespace Hand

/-- The writes in hand. -/
def writes : Hand → List PendingWrite
  | .empty => []
  | .taken w => [w]
  | .busy w _ => [w]

/-- What is left to do of the write in hand. -/
def rest? (now : UInt64) : Hand → Option (Staged Bool)
  | .empty => none
  | .taken w => some (Staged.set now w.key w.content)
  | .busy _ rest => some rest

end Hand

/-- A lookup that memory has not answered, and what is left to do of it on the disk. -/
structure Asking where
  key : String
  rest : Staged (Option ByteArray)

/-- A cache between its caller and its writer. -/
structure Session (V : Type) where
  state : LayeredState V
  hand : Hand := .empty
  /-- The lookup that is under way. -/
  asking : Option Asking := none

namespace Session

/-- What the caller asks of the cache. Calls that only look at counters are left out. -/
inductive Request (V : Type) where
  | store (key : String) (v : V)
  | lookup (key : String)
  | diskStats
  /-- Memory is emptied. -/
  | clearMemory
  /-- The entry of a key is dropped from memory. -/
  | dropMemory (key : String)
  | flush
  | clear

/-- What the caller or the writer does. -/
inductive Turn (V : Type) where
  /-- The caller makes a call, unless a lookup is under way. -/
  | call (request : Request V)
  /-- The lookup that is under way takes its next step, or it ends. -/
  | proceed
  /-- The writer takes a write, begins it, takes the next step of it, or is done with it. -/
  | work

variable {V : Type}

/-- The writes in the queue. -/
def queue (x : Session V) : List PendingWrite :=
  (x.state.cache.disk.map (·.queue)).getD []

/-- Whether the writer, if there is one, still carries writes out. -/
def Works (x : Session V) : Prop :=
  ∀ side, x.state.cache.disk = some side → side.running = true

/-- A disk side with its drive. -/
def disk (x : Session V) (side : DiskSide) : DiskState :=
  ⟨side.cache, x.state.drive⟩

/-- What a step on the disk layer leaves of the state. -/
def stepped (x : Session V) (side : DiskSide) (ds : DiskState) : LayeredState V :=
  withDisk x.state { side with cache := ds.cache } ds.drive

/-! ### The writer -/

/-- The writer takes the first waiting write, unless it has one. -/
def take (x : Session V) : Session V :=
  match x.hand, x.state.cache.disk with
  | .empty, some side =>
    match side.queue with
    | [] => x
    | w :: rest =>
      { x with
        state := withDisk x.state { side with queue := rest } x.state.drive
        hand := .taken w }
  | _, _ => x

/-- The writer is done with a write. -/
def finish (x : Session V) (side : DiskSide) (r : Except CacheError Bool) (ds : DiskState) :
    Session V :=
  { x with
    state := withDisk x.state (side.afterWrite side.queue ds.cache r) ds.drive
    hand := .empty }

/-- The writer goes on by a step. -/
def work (x : Session V) (now : UInt64) : Session V :=
  match x.hand, x.state.cache.disk with
  | .empty, _ => x.take
  | .taken w, some _ => { x with hand := .busy w (Staged.set now w.key w.content) }
  | .busy _ (.done r), some side => x.finish side r (x.disk side)
  | .busy w (.step change rest), some side =>
    { x with state := x.stepped side (change (x.disk side)), hand := .busy w (rest (x.disk side)) }
  | _, none => x

/-- The writer carries out the write that it has in hand, with nothing between the steps. -/
def carryOut (now : UInt64) (x : Session V) : Session V :=
  match x.state.cache.disk, x.hand.rest? now with
  | some side, some rest => x.finish side (rest.run (x.disk side)).1 (rest.run (x.disk side)).2
  | _, _ => { x with hand := .empty }

/-- The writer carries out a number of waiting writes. -/
def drain (now : UInt64) : Nat → Session V → Session V
  | 0, x => x
  | n + 1, x => drain now n (carryOut now x.take)

/-! ### The caller -/

/-- The caller makes a call that nothing comes into. -/
def call {α : Type} (op : LayeredM V α) (x : Session V) : Session V :=
  { x with state := (op.run.run x.state).2 }

/-- Looking at the disk layer may make the index, and one makes it while others wait for it. Where a
write has been begun this is the writer. -/
def look (x : Session V) : Session V :=
  match x.hand with
  | .busy _ _ => x
  | _ => x.call diskStats

variable [Json.Form V]

/-- The caller begins a lookup. It has its answer at once, unless the disk must be asked. -/
def ask (x : Session V) (now : UInt64) (key : String) : Session V :=
  match x.state.cache.memory.get now key, x.state.cache.disk with
  | (none, memory), some _ =>
    { x with state := withMemory x.state memory, asking := some ⟨key, Staged.get key⟩ }
  | _, _ => x.call (lookup now key)

/-- The lookup that is under way goes on by a step. -/
def proceed (x : Session V) (now : UInt64) : Session V :=
  match x.asking, x.state.cache.disk with
  | some ⟨key, .done r⟩, _ => { x.call (conclude now key r) with asking := none }
  | some ⟨key, .step change rest⟩, some side =>
    { x with
      state := x.stepped side (change (x.disk side))
      asking := some ⟨key, rest (x.disk side)⟩ }
  | _, _ => x

/-- The caller makes a call. A flush waits for the write that the writer has in hand. -/
def make (x : Session V) (now : UInt64) : Request V → Session V
  | .store key v => x.call (store now key v)
  | .lookup key => x.ask now key
  | .diskStats => x.look
  | .clearMemory => x.call (change fun c => { c with memory := c.memory.clear })
  | .dropMemory key => x.call (change fun c => { c with memory := (c.memory.remove key).2 })
  | .flush => (x.carryOut now).call (flush now)
  | .clear => (x.carryOut now).call (LayeredCache.clear now)

/-! ### Turns -/

/-- Plays a turn. -/
def play (x : Session V) (now : UInt64) : Turn V → Session V
  | .call request => if x.asking.isNone then x.make now request else x
  | .proceed => x.proceed now
  | .work => x.work now

/-- Plays turns one after the other. -/
def playAll (x : Session V) (turns : List (UInt64 × Turn V)) : Session V :=
  turns.foldl (fun x p => x.play p.1 p.2) x

/-- What a call orders the disk layer to do: a store that is accepted, or clearing. -/
def requested (x : Session V) (now : UInt64) : Request V → List DiskOrder
  | .store key v =>
    match ((store now key v).run.run x.state).1, x.state.cache.disk with
    | .ok _, some side =>
      if side.running ∧ side.queue.length < side.capacity then [.put ⟨key, bytesOf v⟩] else []
    | _, _ => []
  | .clear => [.clear]
  | .lookup _ | .diskStats | .clearMemory | .dropMemory _ | .flush => []

/-- What a turn orders the disk layer to do. -/
def ordered (x : Session V) (now : UInt64) : Turn V → List DiskOrder
  | .call request => if x.asking.isNone then x.requested now request else []
  | .proceed | .work => []

/-- What turns order the disk layer to do. -/
def orders (x : Session V) : List (UInt64 × Turn V) → List DiskOrder
  | [] => []
  | (now, turn) :: turns => x.ordered now turn ++ (x.play now turn).orders turns

/-- The lookup that a turn answers, with its answer. -/
def answered (x : Session V) (now : UInt64) :
    Turn V → Option (String × Except CacheError (Option V))
  | .call (.lookup key) =>
    match x.asking, x.state.cache.memory.get now key, x.state.cache.disk with
    | some _, _, _ => none
    | none, (none, _), some _ => none
    | none, _, _ => some (key, ((lookup now key).run.run x.state).1)
  | .proceed =>
    match x.asking with
    | some ⟨key, .done r⟩ => some (key, ((conclude now key r).run.run x.state).1)
    | _ => none
  | _ => none

/-- The lookups that turns answer, with their answers. -/
def answers (x : Session V) :
    List (UInt64 × Turn V) → List (String × Except CacheError (Option V))
  | [] => []
  | (now, turn) :: turns => (x.answered now turn).toList ++ (x.play now turn).answers turns

/-! ## What the writer does -/

section Writer

omit [Json.Form V]

variable {x : Session V} {now : UInt64} {side : DiskSide} {w : PendingWrite}

theorem carryOut_some {rest : Staged Bool} {r : Except CacheError Bool} {ds : DiskState}
    (hdisk : x.state.cache.disk = some side) (hrest : x.hand.rest? now = some rest)
    (hrun : rest.run (x.disk side) = (r, ds)) : x.carryOut now = x.finish side r ds := by
  rw [carryOut, hdisk, hrest]
  simp only [hrun]

theorem stepped_self (hdisk : x.state.cache.disk = some side) :
    x.stepped side (x.disk side) = x.state := by
  change withDisk x.state side x.state.drive = x.state
  rw [withDisk, ← hdisk]

theorem hand_carryOut (x : Session V) (now : UInt64) : (x.carryOut now).hand = .empty := by
  rw [carryOut]
  split <;> rfl

theorem asking_carryOut (x : Session V) (now : UInt64) : (x.carryOut now).asking = x.asking := by
  rw [carryOut]
  split <;> rfl

theorem carryOut_empty (hhand : x.hand = .empty) : x.carryOut now = x := by
  rw [carryOut, hhand]
  cases x
  cases hhand
  simp only [Hand.rest?]
  split <;> simp_all

theorem asking_take (x : Session V) : x.take.asking = x.asking := by
  rw [take]
  split
  · split <;> rfl
  · rfl

theorem memory_carryOut (x : Session V) (now : UInt64) :
    (x.carryOut now).state.cache.memory = x.state.cache.memory := by
  rw [carryOut]
  split <;> rfl

theorem memory_take (x : Session V) : x.take.state.cache.memory = x.state.cache.memory := by
  rw [take]
  split
  · split <;> rfl
  · rfl

theorem memory_drain (x : Session V) (now : UInt64) (n : Nat) :
    (x.drain now n).state.cache.memory = x.state.cache.memory := by
  induction n generalizing x with
  | zero => rfl
  | succ n ih => rw [drain, ih, memory_carryOut, memory_take]

theorem asking_drain (x : Session V) (now : UInt64) (n : Nat) :
    (x.drain now n).asking = x.asking := by
  induction n generalizing x with
  | zero => rfl
  | succ n ih => rw [drain, ih, asking_carryOut, asking_take]

theorem hand_drain (hhand : x.hand = .empty) (now : UInt64) (n : Nat) : (x.drain now n).hand = .empty := by
  induction n generalizing x with
  | zero => exact hhand
  | succ n ih => exact ih (hand_carryOut _ _)

/-- A write is taken and then carried out. -/
theorem run_drainOne (hhand : x.hand = .empty) :
    (drainOne now).run.run x.state = (.ok (), (x.take.carryOut now).state) := by
  rcases hdisk : x.state.cache.disk with _ | side
  · have htake : x.take = x := by simp only [take, hhand, hdisk]
    rw [LayeredCache.run_drainOne_none hdisk, htake, carryOut_empty hhand]
  rcases hqueue : side.queue with _ | ⟨w, rest⟩
  · have htake : x.take = x := by simp only [take, hhand, hdisk, hqueue]
    rw [LayeredCache.run_drainOne_nil hdisk hqueue, htake, carryOut_empty hhand]
  · have htake : x.take = { x with
        state := withDisk x.state { side with queue := rest } x.state.drive
        hand := .taken w } := by simp only [take, hhand, hdisk, hqueue]
    rcases hrun : (DiskCache.set now w.key w.content).run.run ⟨side.cache, x.state.drive⟩ with ⟨r, ds⟩
    have hstaged := Staged.carries_set now w.key w.content ⟨side.cache, x.state.drive⟩
    rw [hrun] at hstaged
    have hcarried : x.take.carryOut now = x.take.finish { side with queue := rest } r ds := by
      rw [htake]
      exact carryOut_some rfl rfl hstaged
    rw [LayeredCache.run_drainOne hdisk hqueue hrun, hcarried, htake]
    cases r <;> rfl

theorem run_drainMany (hhand : x.hand = .empty) (n : Nat) :
    (drainMany now n).run.run x.state = (.ok (), (x.drain now n).state) := by
  induction n generalizing x with
  | zero => rfl
  | succ n ih =>
    rw [drainMany, run_bind_ok (run_drainOne hhand), ih (hand_carryOut _ _)]
    rfl

/-- A flush takes and carries out as many writes as wait. -/
theorem run_flush (hhand : x.hand = .empty) :
    (flush now).run.run x.state = (.ok (), (x.drain now x.queue.length).state) := by
  rw [flush, run_bind_ok (run_get _)]
  have hlength : ((x.state.cache.disk.map fun side => side.queue.length).getD 0) =
      x.queue.length := by
    rw [queue]
    cases x.state.cache.disk <;> rfl
  rw [hlength, run_drainMany hhand]

theorem length_queue_carryOut (x : Session V) (now : UInt64) :
    (x.carryOut now).queue.length ≤ x.queue.length := by
  rcases hdisk : x.state.cache.disk with _ | side
  · simp only [carryOut, queue, hdisk, Nat.le_refl]
  rcases hrest : x.hand.rest? now with _ | rest
  · simp only [carryOut, queue, hdisk, hrest, Nat.le_refl]
  rcases hrun : rest.run (x.disk side) with ⟨r, ds⟩
  have hle : (side.afterWrite side.queue ds.cache r).queue.length ≤ side.queue.length := by
    rcases r with e | kept
    · rw [DiskSide.afterWrite]
      split
      · exact Nat.zero_le _
      · exact Nat.le_refl _
    · exact Nat.le_refl _
  rw [carryOut_some hdisk hrest hrun]
  simpa [queue, hdisk, finish, withDisk] using hle

theorem length_queue_take (hhand : x.hand = .empty) :
    x.take.queue.length ≤ x.queue.length - 1 := by
  rw [take, hhand]
  rcases hdisk : x.state.cache.disk with _ | side
  · simp [queue, hdisk]
  · rcases hqueue : side.queue with _ | ⟨w, rest⟩
    · simp [queue, hdisk, hqueue]
    · simp [queue, hdisk, hqueue, withDisk]

/-- No write waits after as many have been carried out as waited. -/
theorem queue_drain (hhand : x.hand = .empty) {n : Nat} (hn : x.queue.length ≤ n) :
    (x.drain now n).queue = [] := by
  induction n generalizing x with
  | zero => exact List.eq_nil_of_length_eq_zero (Nat.le_zero.1 hn)
  | succ n ih =>
    refine ih (hand_carryOut _ _) ?_
    have htake := length_queue_take hhand
    have hcarry := length_queue_carryOut x.take now
    omega

end Writer

theorem make_flush (x : Session V) (now : UInt64) :
    x.make now .flush = (x.carryOut now).drain now (x.carryOut now).queue.length := by
  have hhand := hand_carryOut x now
  have hdrained := hand_drain hhand now (x.carryOut now).queue.length
  have hasking := asking_drain (x.carryOut now) now (x.carryOut now).queue.length
  rw [make, call, run_flush hhand, hhand, ← hdrained, ← hasking]

/-! ## What comes of turns -/

section Turns

variable {x : Session V} {now : UInt64} {side : DiskSide}

section Step

variable {key : String} {p : Staged (Option ByteArray)} (hasking : x.asking = some ⟨key, p⟩)
  (hp : ∀ r, p ≠ .done r)

include hasking hp

theorem proceed_step (hdisk : x.state.cache.disk = some side) (now : UInt64) :
    x.proceed now = { x with
      state := x.stepped side (p.advance (x.disk side)).2
      asking := some ⟨key, (p.advance (x.disk side)).1⟩ } := by
  cases p with
  | done r => exact absurd rfl (hp r)
  | step change rest => simp only [proceed, hasking, hdisk, Staged.advance]

theorem proceed_step_none (hdisk : x.state.cache.disk = none) (now : UInt64) :
    x.proceed now = x := by
  cases p with
  | done r => exact absurd rfl (hp r)
  | step change rest => simp only [proceed, hasking, hdisk]

theorem answered_step (now : UInt64) : x.answered now .proceed = none := by
  cases p with
  | done r => exact absurd rfl (hp r)
  | step change rest => simp only [answered, hasking]

end Step

theorem playAll_replicate_succ (turn : Turn V) (n : Nat) :
    x.playAll (List.replicate (n + 1) (now, turn)) =
      (x.play now turn).playAll (List.replicate n (now, turn)) :=
  rfl

theorem playAll_replicate_add (turn : Turn V) (m n : Nat) :
    x.playAll (List.replicate (m + n) (now, turn)) =
      (x.playAll (List.replicate m (now, turn))).playAll (List.replicate n (now, turn)) := by
  rw [← List.replicate_append_replicate, playAll, List.foldl_append]
  rfl

/-- The writer comes to the end of the write that it carries out. -/
theorem exists_work_busy (hdisk : x.state.cache.disk = some side) {w : PendingWrite}
    {rest : Staged Bool} (hhand : x.hand = .busy w rest) (now : UInt64) :
    ∃ n, x.playAll (List.replicate n (now, .work)) = x.carryOut now := by
  induction rest generalizing x side with
  | done r =>
    refine ⟨1, ?_⟩
    have hwork : x.work now = x.finish side r (x.disk side) := by simp only [work, hhand, hdisk]
    rw [carryOut_some hdisk (by rw [hhand]; rfl) rfl]
    exact hwork
  | step change rest ih =>
    have hwork : x.work now = { x with
        state := x.stepped side (change (x.disk side))
        hand := .busy w (rest (x.disk side)) } := by simp only [work, hhand, hdisk]
    obtain ⟨n, hn⟩ := ih (x.disk side) (x := x.work now) (by rw [hwork]; rfl) (by rw [hwork])
    refine ⟨n + 1, ?_⟩
    rw [playAll_replicate_succ]
    refine hn.trans ?_
    rcases hrun : (rest (x.disk side)).run (change (x.disk side)) with ⟨r, ds⟩
    have hlast : (x.work now).carryOut now =
        (x.work now).finish { side with cache := (change (x.disk side)).cache } r ds := by
      rw [hwork]
      exact carryOut_some rfl rfl hrun
    rw [carryOut_some hdisk (by rw [hhand]; rfl) hrun, hlast, hwork]
    cases r <;> rfl

/-- Whatever the writer has in hand, it comes to its end if it is left alone. -/
theorem exists_work (hdisk : x.state.cache.disk = some side) (now : UInt64) :
    ∃ n, x.playAll (List.replicate n (now, .work)) = x.carryOut now := by
  rcases hhand : x.hand with _ | w | ⟨w, rest⟩
  · exact ⟨0, (carryOut_empty hhand).symm⟩
  · have hwork : x.work now = { x with hand := .busy w (Staged.set now w.key w.content) } := by
      simp only [work, hhand, hdisk]
    obtain ⟨n, hn⟩ := exists_work_busy (x := x.work now) (by rw [hwork]; exact hdisk)
      (by rw [hwork]) now
    refine ⟨n + 1, ?_⟩
    rw [playAll_replicate_succ]
    refine hn.trans ?_
    rw [carryOut_some hdisk (by rw [hhand]; rfl) rfl, hwork]
    exact carryOut_some hdisk rfl rfl
  · exact exists_work_busy hdisk hhand now

omit [Json.Form V] in
theorem exists_disk_carryOut (hdisk : x.state.cache.disk = some side) (now : UInt64) :
    ∃ side', (x.carryOut now).state.cache.disk = some side' := by
  rw [carryOut, hdisk]
  split
  · exact ⟨_, rfl⟩
  · exact ⟨side, hdisk⟩

omit [Json.Form V] in
theorem exists_disk_take (hdisk : x.state.cache.disk = some side) :
    ∃ side', x.take.state.cache.disk = some side' := by
  rw [take, hdisk]
  split
  · split
    · exact ⟨side, hdisk⟩
    · exact ⟨_, rfl⟩
  · exact ⟨side, hdisk⟩

theorem exists_work_drain (hdisk : x.state.cache.disk = some side) (hhand : x.hand = .empty)
    (now : UInt64) (count : Nat) :
    ∃ n, x.playAll (List.replicate n (now, .work)) = x.drain now count := by
  induction count generalizing x side with
  | zero => exact ⟨0, rfl⟩
  | succ count ih =>
    have htake : x.play now .work = x.take := by simp only [play, work, hhand]
    obtain ⟨side', hside'⟩ := exists_disk_take hdisk
    obtain ⟨side'', hside''⟩ := exists_disk_carryOut hside' now
    obtain ⟨m, hm⟩ := exists_work hside' now
    obtain ⟨n, hn⟩ := ih hside'' (hand_carryOut x.take now)
    refine ⟨m + n + 1, ?_⟩
    rw [playAll_replicate_succ, htake, playAll_replicate_add, hm]
    exact hn

/-- A flush does what comes of turns of the writer alone. -/
theorem exists_work_flush (hdisk : x.state.cache.disk = some side) (now : UInt64) :
    ∃ n, x.playAll (List.replicate n (now, .work)) = x.make now .flush := by
  obtain ⟨side', hside'⟩ := exists_disk_carryOut hdisk now
  obtain ⟨m, hm⟩ := exists_work hdisk now
  obtain ⟨n, hn⟩ :=
    exists_work_drain hside' (hand_carryOut x now) now (x.carryOut now).queue.length
  refine ⟨m + n, ?_⟩
  rw [playAll_replicate_add, hm, make_flush]
  exact hn

/-- A lookup that has been begun comes to its end if nothing comes between its steps. -/
theorem exists_proceed (hdisk : x.state.cache.disk = some side) {key : String}
    {p : Staged (Option ByteArray)} (hasking : x.asking = some ⟨key, p⟩) (now : UInt64) :
    ∃ n, let last := x.stepped side (p.run (x.disk side)).2
      x.playAll (List.replicate n (now, .proceed)) = { x with
          state := ((conclude now key (p.run (x.disk side)).1).run.run last).2
          asking := none } ∧
        x.answers (List.replicate n (now, .proceed)) =
          [(key, ((conclude now key (p.run (x.disk side)).1).run.run last).1)] := by
  induction p generalizing x side with
  | done r =>
    have hstate : x.stepped side ((Staged.done r).run (x.disk side)).2 = x.state :=
      stepped_self hdisk
    have hproceed : x.proceed now = { x.call (conclude now key r) with asking := none } := by
      simp only [proceed, hasking]
    have hanswered : x.answered now .proceed =
        some (key, ((conclude now key r).run.run x.state).1) := by simp only [answered, hasking]
    refine ⟨1, ?_⟩
    rw [hstate]
    refine ⟨hproceed, ?_⟩
    rw [List.replicate_one, answers, hanswered]
    rfl
  | step change rest ih =>
    have hstep : ∀ r, Staged.step change rest ≠ .done r := fun r hr => by cases hr
    have hproceed := proceed_step hasking hstep hdisk now
    have hanswered := answered_step hasking hstep now
    obtain ⟨n, hplay, hanswers⟩ := ih (x.disk side) (x := x.proceed now)
      (by rw [hproceed]; rfl) (by rw [hproceed]; rfl)
    refine ⟨n + 1, ?_, ?_⟩
    · rw [playAll_replicate_succ]
      refine hplay.trans ?_
      rw [hproceed]
      rfl
    · rw [List.replicate_succ, answers, hanswered]
      refine hanswers.trans ?_
      rw [hproceed]
      rfl

/-- A lookup that nothing comes between does what `LayeredCache.lookup` does, and answers what it
answers. -/
theorem exists_proceed_lookup (hasking : x.asking = none) (now : UInt64) (key : String) :
    ∃ n, let turns : List (UInt64 × Turn V) :=
        (now, .call (.lookup key)) :: List.replicate n (now, .proceed)
      x.playAll turns = x.call (lookup now key) ∧
        x.answers turns = [(key, ((lookup now key).run.run x.state).1)] := by
  have hcall : x.play now (.call (.lookup key)) = x.ask now key := by
    simp only [play, make, hasking, Option.isNone_none, if_true]
  rcases hget : x.state.cache.memory.get now key with ⟨_ | v, memory⟩
  · rcases hdisk : x.state.cache.disk with _ | side
    · have hask : x.ask now key = x.call (lookup now key) := by simp only [ask, hget, hdisk]
      have hanswered : x.answered now (.call (.lookup key)) =
          some (key, ((lookup now key).run.run x.state).1) := by
        simp only [answered, hasking, hget, hdisk]
      refine ⟨0, hcall.trans hask, ?_⟩
      rw [List.replicate_zero, answers, hanswered]
      rfl
    · have hask : x.ask now key = { x with
          state := withMemory x.state memory
          asking := some ⟨key, Staged.get key⟩ } := by simp only [ask, hget, hdisk]
      have hanswered : x.answered now (.call (.lookup key)) = none := by
        simp only [answered, hasking, hget, hdisk]
      rcases hrun : (DiskCache.get key).run.run ⟨side.cache, x.state.drive⟩ with ⟨found, ds⟩
      have hlookup := LayeredCache.run_lookup_conclude hget hdisk hrun
      have hstaged : (Staged.get key).run ((x.ask now key).disk side) = (found, ds) := by
        rw [hask]
        exact (Staged.carries_get key _).trans hrun
      obtain ⟨n, hplay, hanswers⟩ := exists_proceed (x := x.ask now key)
        (by rw [hask]; exact hdisk) (by rw [hask]) now
      rw [hstaged] at hplay hanswers
      refine ⟨n, ?_, ?_⟩
      · change (x.play now (.call (.lookup key))).playAll _ = _
        rw [hcall, hplay, hask, call, hlookup, ← hasking]
        rfl
      · rw [answers, hanswered, hcall, hanswers, hlookup, hask]
        rfl
  · have hask : x.ask now key = x.call (lookup now key) := by simp only [ask, hget]
    have hanswered : x.answered now (.call (.lookup key)) =
        some (key, ((lookup now key).run.run x.state).1) := by
      simp only [answered, hasking, hget]
    refine ⟨0, hcall.trans hask, ?_⟩
    rw [List.replicate_zero, answers, hanswered]
    rfl

/-! ### From one session to another -/

/-- Whether some turns lead from one session to another, with these orders. -/
def Comes (x : Session V) (orders : List DiskOrder) (y : Session V) : Prop :=
  ∃ turns, x.playAll turns = y ∧ x.orders turns = orders

theorem orders_append (x : Session V) (turns turns' : List (UInt64 × Turn V)) :
    x.orders (turns ++ turns') = x.orders turns ++ (x.playAll turns).orders turns' := by
  induction turns generalizing x with
  | nil => rfl
  | cons head turns ih =>
    rw [List.cons_append, orders, ih, orders, List.append_assoc]
    rfl

theorem orders_replicate {turn : Turn V} (hturn : ∀ y : Session V, y.ordered now turn = []) (n : Nat) :
    x.orders (List.replicate n (now, turn)) = [] := by
  induction n generalizing x with
  | zero => rfl
  | succ n ih => rw [List.replicate_succ, orders, hturn, ih, List.append_nil]

theorem Comes.trans {y z : Session V} {orders orders' : List DiskOrder} (h : x.Comes orders y)
    (h' : y.Comes orders' z) : x.Comes (orders ++ orders') z := by
  obtain ⟨turns, rfl, rfl⟩ := h
  obtain ⟨turns', rfl, rfl⟩ := h'
  exact ⟨turns ++ turns', List.foldl_append, orders_append x turns turns'⟩

theorem comes_play (x : Session V) (now : UInt64) (turn : Turn V) :
    x.Comes (x.ordered now turn) (x.play now turn) :=
  ⟨[(now, turn)], rfl, by rw [orders, orders, List.append_nil]⟩

/-- The writer takes the first waiting write and carries it out. -/
theorem comes_carryOut (hhand : x.hand = .empty) (hdisk : x.state.cache.disk = some side)
    {w : PendingWrite} {waiting : List PendingWrite} (hqueue : side.queue = w :: waiting) {kept : Bool}
    {ds : DiskState} (hset : (DiskCache.set now w.key w.content).run.run (x.disk side) = (.ok kept, ds)) :
    x.Comes [] { x with state := x.stepped { side with queue := waiting } ds } := by
  have htake : x.play now .work = { x with
      state := withDisk x.state { side with queue := waiting } x.state.drive
      hand := .taken w } := by simp only [play, work, take, hhand, hdisk, hqueue]
  have hside : (x.play now .work).state.cache.disk = some { side with queue := waiting } := by
    rw [htake]
    rfl
  have hrest : (x.play now .work).hand.rest? now = some (Staged.set now w.key w.content) := by
    rw [htake]
    rfl
  have hrun : (Staged.set now w.key w.content).run
      ((x.play now .work).disk { side with queue := waiting }) = (.ok kept, ds) := by
    rw [Staged.carries_set, htake]
    exact hset
  obtain ⟨n, hn⟩ := exists_work hside now
  refine ⟨List.replicate (n + 1) (now, .work), ?_, orders_replicate (fun _ => rfl) _⟩
  rw [playAll_replicate_succ, hn, carryOut_some hside hrest hrun, htake, finish, ← hhand]
  rfl

/-- A lookup comes to its end. -/
theorem comes_proceed (hdisk : x.state.cache.disk = some side) {key : String}
    {p : Staged (Option ByteArray)} (hasking : x.asking = some ⟨key, p⟩) (now : UInt64) :
    x.Comes [] { x with
      state := ((conclude now key (p.run (x.disk side)).1).run.run
        (x.stepped side (p.run (x.disk side)).2)).2
      asking := none } := by
  obtain ⟨n, hplay, -⟩ := exists_proceed hdisk hasking now
  exact ⟨_, hplay, orders_replicate (fun _ => rfl) n⟩

end Turns

end Session

end CodeGraph.Cache
