import CodeGraph.Proofs.Cache.Memory.Eviction

/-!
# Runs of the memory layer

A run is any sequence of calls, each at a time of its own; the clock may go back. It is told by its
history, the latest event first.

What a call can do to the entries is said once (`MemoryCache.Performed`,
`MemoryCache.performed_of_perform`): it stores a value in front and cuts the list, it brings the entry
it answers to the front, or it drops entries and adds none. Everything that holds in every run comes
from these three cases. Here that is the accounting: the total is the sum of the sizes, both bounds
hold, and no sum leaves the 64-bit words (`MemoryCache.reaches_within_bounds`).
-/

namespace CodeGraph.Cache

/-- A value offered to the memory layer, with how long it is to live. -/
structure Offer (V : Type) where
  key : String
  value : V
  size : UInt64
  ttl : Option UInt64

inductive MemoryCall (V : Type) where
  | set (key : String) (value : V) (size : UInt64)
  | setWithTtl (offer : Offer V)
  | get (key : String)
  | contains (key : String)
  | remove (key : String)
  | purgeExpired
  | clear

inductive MemoryAnswer (V : Type) where
  | stored (kept : Bool)
  | found (value : Option V)
  | present (there : Bool)
  | removed (value : Option V)
  | purged (count : Nat)
  | cleared

structure MemoryEvent (V : Type) where
  time : UInt64
  call : MemoryCall V
  answer : MemoryAnswer V

namespace Offer

variable {V : Type}

/-- The entry of an offered value. -/
def entry (o : Offer V) (expiresAt : Option UInt64) : MemoryEntry V :=
  ⟨o.key, o.value, o.size, expiresAt⟩

end Offer

namespace MemoryCall

variable {V : Type}

/-- What a call offers; without a time to live of its own a value has the configured one. -/
def offer? (configured : Option UInt64) : MemoryCall V → Option (Offer V)
  | .set key value size => some ⟨key, value, size, configured⟩
  | .setWithTtl offer => some offer
  | .get _ | .contains _ | .remove _ | .purgeExpired | .clear => none

/-- Whether a call replaces or removes what is stored under a key. -/
def touches (key : String) : MemoryCall V → Bool
  | .set k _ _ | .remove k => k == key
  | .setWithTtl offer => offer.key == key
  | .clear => true
  | .get _ | .contains _ | .purgeExpired => false

end MemoryCall

namespace MemoryCache

variable {V : Type} {settings : MemorySettings} {start c c' : MemoryCache V}
  {h : List (MemoryEvent V)} {now : UInt64} {call : MemoryCall V} {answer : MemoryAnswer V}

/-- Carries out a call. Only a store may have no result. -/
def perform (c : MemoryCache V) (now : UInt64) :
    MemoryCall V → Option (MemoryAnswer V × MemoryCache V)
  | .set key value size =>
    (c.set now key value size).map fun r => (.stored r.1, r.2)
  | .setWithTtl o =>
    (c.setWithTtl now o.key o.value o.size o.ttl).map fun r => (.stored r.1, r.2)
  | .get key => some (.found (c.get now key).1, (c.get now key).2)
  | .contains key => some (.present (c.contains now key), c)
  | .remove key => some (.removed (c.remove key).1, (c.remove key).2)
  | .purgeExpired => some (.purged (c.purgeExpired now).1, (c.purgeExpired now).2)
  | .clear => some (.cleared, c.clear)

/-- The runs of a cache with their histories. -/
inductive Reaches (start : MemoryCache V) : List (MemoryEvent V) → MemoryCache V → Prop
  | start : Reaches start [] start
  | call {h : List (MemoryEvent V)} {c c' : MemoryCache V} {now : UInt64} {call : MemoryCall V}
      {answer : MemoryAnswer V} : Reaches start h c → c.perform now call = some (answer, c') →
      Reaches start (⟨now, call, answer⟩ :: h) c'

/-! ## What a call does -/

/-- Both kinds of store are an offer. -/
theorem perform_offer {o : Offer V} (ho : call.offer? c.ttl = some o) :
    c.perform now call =
      ((expiryOf? now o.ttl).bind fun expiresAt => c.put (o.entry expiresAt)).map
        fun r => (.stored r.1, r.2) := by
  cases call <;> cases ho <;> rfl

theorem exists_dropEntry (c : MemoryCache V) (key : String) :
    ∃ size, c.dropEntry key =
      { c with entries := c.entries.filter fun e => e.key != key, currentSize := size } := by
  have hentries := entries_dropEntry c key
  rw [dropEntry] at hentries ⊢
  split at hentries
  · exact ⟨c.currentSize, by rw [← hentries]⟩
  · exact ⟨_, rfl⟩

/-- Dropping several entries changes the list and the total only. -/
theorem exists_foldl_dropEntry (l : List (MemoryEntry V)) (c : MemoryCache V) :
    ∃ entries size, entries.Sublist c.entries ∧
      l.foldl (fun c e => c.dropEntry e.key) c = { c with entries, currentSize := size } := by
  induction l generalizing c with
  | nil => exact ⟨c.entries, c.currentSize, List.Sublist.refl _, rfl⟩
  | cons e l ih =>
    obtain ⟨size, hdrop⟩ := exists_dropEntry c e.key
    obtain ⟨entries, size', hsub, hfold⟩ := ih (c.dropEntry e.key)
    rw [hdrop] at hsub hfold
    refine ⟨entries, size', hsub.trans List.filter_sublist, ?_⟩
    rw [List.foldl_cons, hdrop, hfold]

theorem Consistent.foldl_dropEntry (l : List (MemoryEntry V)) (hc : c.Consistent) :
    (l.foldl (fun c e => c.dropEntry e.key) c).Consistent := by
  induction l generalizing c with
  | nil => exact hc
  | cons e l ih => exact ih (hc.dropEntry e.key)

/-- What a call does to the entries and to the counter of evictions. -/
inductive Performed (c c' : MemoryCache V) (ev : MemoryEvent V) : Prop
  /-- A value is stored in front of the others, and the list is cut. -/
  | accepted {o : Offer V} {expiresAt : Option UInt64} :
      ev.call.offer? c.ttl = some o → ev.answer = .stored true → o.size ≤ c.maxSize →
      expiryOf? ev.time o.ttl = some expiresAt →
      Longest c.maxItems c.maxSize (o.entry expiresAt :: c.entries.filter fun e => e.key != o.key)
        c'.entries →
      c'.metrics.evictions = c.metrics.evictions + UInt64.ofNat
        ((o.entry expiresAt :: c.entries.filter fun e => e.key != o.key).length -
          c'.entries.length) →
      Performed c c' ev
  /-- The entry that answers comes to the front. -/
  | hit {e : MemoryEntry V} :
      ev.call = .get e.key → ev.answer = .found (some e.value) → c.entry? e.key = some e →
      c'.entries = e :: c.entries.filter (fun x => x.key != e.key) →
      c'.metrics.evictions = c.metrics.evictions → Performed c c' ev
  /-- Entries are dropped or nothing happens; what the call touches is gone. -/
  | dropped :
      ev.answer ≠ .stored true → (∀ v, ev.answer ≠ .found (some v)) →
      c'.entries.Sublist c.entries →
      (∀ key, ev.call.touches key → ∀ e ∈ c'.entries, e.key ≠ key) →
      c'.metrics.evictions = c.metrics.evictions → Performed c c' ev

theorem touches_offer {configured : Option UInt64} {o : Offer V} {key : String}
    (ho : call.offer? configured = some o) : call.touches key ↔ o.key = key := by
  cases call <;> cases ho <;> exact beq_iff_eq

/-- A store drops the entry of its key only, or it stores the new one in front and evicts. -/
theorem put_cases (hc : c.Consistent) {e : MemoryEntry V} {kept : Bool}
    (hput : c.put e = some (kept, c')) :
    (kept = false ∧ c.maxSize < e.size ∧ c' = c.dropEntry e.key) ∨
      (kept = true ∧ e.size ≤ c.maxSize ∧ ∃ stored : MemoryCache V,
        (∃ size, stored = { c with
          entries := e :: c.entries.filter fun x => x.key != e.key, currentSize := size }) ∧
        stored.currentSize.toNat = total stored.entries ∧ c' = stored.evict) := by
  obtain ⟨dropped, hdrop⟩ := exists_dropEntry c e.key
  have hothers := (hc.dropEntry e.key).size
  rw [put] at hput
  rw [hdrop] at hput hothers ⊢
  by_cases hlarge : c.maxSize < e.size
  · rw [if_pos hlarge] at hput
    cases hput
    exact .inl ⟨rfl, hlarge, rfl⟩
  · rw [if_neg hlarge] at hput
    obtain ⟨size, hsum, heq⟩ := Option.map_eq_some_iff.1 hput
    cases heq
    refine .inr ⟨rfl, UInt64.not_lt.1 hlarge, _, ⟨size, rfl⟩, ?_, rfl⟩
    rw [Amount.sum?_eq_some_iff] at hsum
    rw [total_cons, hsum, hothers, Nat.add_comm]

theorem performed_of_offer (hc : c.Consistent) {o : Offer V}
    (ho : call.offer? c.ttl = some o) (hrun : c.perform now call = some (answer, c')) :
    Performed c c' ⟨now, call, answer⟩ := by
  rw [perform_offer ho] at hrun
  obtain ⟨⟨kept, c''⟩, hput, heq⟩ := Option.map_eq_some_iff.1 hrun
  obtain ⟨rfl, rfl⟩ := Prod.mk.inj heq
  obtain ⟨expiresAt, hexpiry, hput⟩ := Option.bind_eq_some_iff.1 hput
  rcases put_cases hc hput with ⟨rfl, -, hdropped⟩ | ⟨rfl, hfits, stored, hstored, htotal, rfl⟩
  · obtain ⟨size, hdrop⟩ := exists_dropEntry c o.key
    rw [hdropped]
    refine .dropped (by simp) (by simp) ?_ ?_ ?_
    · rw [entries_dropEntry]
      exact List.filter_sublist
    · intro key htouches e he
      rw [← (touches_offer ho).1 htouches]
      exact (mem_dropEntry.1 he).2
    · exact congrArg (·.metrics.evictions) hdrop
  · have hkept := longest_evict htotal
    have hcount := evictions_evict stored
    obtain ⟨size, rfl⟩ := hstored
    exact .accepted ho rfl hfits hexpiry hkept hcount

theorem performed_of_get (c : MemoryCache V) (now : UInt64) (key : String) :
    Performed c (c.get now key).2 ⟨now, .get key, .found (c.get now key).1⟩ := by
  rcases hentry : c.entry? key with _ | e
  · simp only [get, hentry]
    exact .dropped (by simp) (by simp) (List.Sublist.refl _) (by simp [MemoryCall.touches]) rfl
  · obtain ⟨-, rfl⟩ := mem_of_find hentry
    by_cases hexpired : e.isExpired now
    · obtain ⟨size, hdrop⟩ := exists_dropEntry c e.key
      simp only [get, hentry, hexpired, if_true, hdrop]
      exact .dropped (by simp) (by simp) List.filter_sublist (by simp [MemoryCall.touches]) rfl
    · simp only [get, hentry, hexpired]
      exact .hit rfl rfl hentry rfl rfl

/-- What a call does in a consistent cache. -/
theorem performed_of_perform (hc : c.Consistent)
    (hrun : c.perform now call = some (answer, c')) : Performed c c' ⟨now, call, answer⟩ := by
  cases call with
  | set key value size => exact performed_of_offer hc rfl hrun
  | setWithTtl o => exact performed_of_offer hc rfl hrun
  | get key =>
    cases hrun
    exact performed_of_get c now key
  | contains key =>
    cases hrun
    exact .dropped (by simp) (by simp) (List.Sublist.refl _) (by simp [MemoryCall.touches]) rfl
  | remove key =>
    obtain ⟨size, hdrop⟩ := exists_dropEntry c key
    cases hrun
    refine .dropped (by simp) (by simp) ?_ ?_ ?_
    · rw [remove, hdrop]
      exact List.filter_sublist
    · intro key' htouches e he
      rw [← beq_iff_eq.1 htouches]
      exact (mem_dropEntry.1 he).2
    · rw [remove, hdrop]
  | purgeExpired =>
    obtain ⟨entries, size, hsub, hfold⟩ :=
      exists_foldl_dropEntry (c.entries.filter fun e => e.isExpired now) c
    cases hrun
    refine .dropped (by simp) (by simp) ?_ (by simp [MemoryCall.touches]) ?_
    · rw [purgeExpired, hfold]
      exact hsub
    · rw [purgeExpired, hfold]
  | clear =>
    cases hrun
    exact .dropped (by simp) (by simp) (List.nil_sublist _) (by simp [clear]) rfl

/-! ## What every run keeps -/

/-- What holds of a cache with its settings in every run. -/
structure Bounded (settings : MemorySettings) (c : MemoryCache V) : Prop where
  consistent : c.Consistent
  maxSize : c.maxSize = settings.maxSize
  maxItems : c.maxItems = settings.maxItems
  ttl : c.ttl = settings.ttl
  allowed : Allowed settings.maxItems settings.maxSize c.entries

theorem bounded_new (settings : MemorySettings) :
    Bounded settings (new settings : MemoryCache V) :=
  ⟨consistent_new settings, rfl, rfl, rfl, ⟨Nat.zero_le _, Nat.zero_le _⟩⟩

theorem exists_put (hc : c.Consistent) {e : MemoryEntry V} {kept : Bool}
    (hput : c.put e = some (kept, c')) :
    ∃ entries size metrics, c' = { c with entries, currentSize := size, metrics } := by
  rcases put_cases hc hput with ⟨-, -, hdropped⟩ | ⟨-, -, stored, ⟨size, rfl⟩, -, rfl⟩
  · obtain ⟨size, hdrop⟩ := exists_dropEntry c e.key
    exact ⟨_, _, _, hdropped.trans hdrop⟩
  · exact ⟨_, _, _, rfl⟩

/-- A call keeps the accounting. It changes the entries, their total and the counters, but no
setting. -/
theorem Consistent.perform (hc : c.Consistent)
    (hrun : c.perform now call = some (answer, c')) :
    c'.Consistent ∧
      ∃ entries size metrics, c' = { c with entries, currentSize := size, metrics } := by
  rcases hoffer : call.offer? c.ttl with _ | o
  · cases call with
    | set _ _ _ => cases hoffer
    | setWithTtl _ => cases hoffer
    | get key =>
      obtain ⟨size, hdrop⟩ := exists_dropEntry c key
      cases hrun
      refine ⟨hc.get now key, ?_⟩
      rw [MemoryCache.get]
      split
      · split
        · rw [hdrop]
          exact ⟨_, _, _, rfl⟩
        · exact ⟨_, _, _, rfl⟩
      · exact ⟨_, _, _, rfl⟩
    | contains key =>
      cases hrun
      exact ⟨hc, _, _, _, rfl⟩
    | remove key =>
      obtain ⟨size, hdrop⟩ := exists_dropEntry c key
      cases hrun
      exact ⟨hc.dropEntry key, _, _, _, hdrop⟩
    | purgeExpired =>
      have hdropped := hc.foldl_dropEntry (c.entries.filter fun e => e.isExpired now)
      obtain ⟨entries, size, -, hfold⟩ :=
        exists_foldl_dropEntry (c.entries.filter fun e => e.isExpired now) c
      cases hrun
      refine ⟨⟨hdropped.nodup, hdropped.size⟩, ?_⟩
      rw [purgeExpired, hfold]
      exact ⟨_, _, _, rfl⟩
    | clear =>
      cases hrun
      exact ⟨consistent_clear c, _, _, _, rfl⟩
  · rw [perform_offer hoffer] at hrun
    obtain ⟨⟨kept, c''⟩, hput, heq⟩ := Option.map_eq_some_iff.1 hrun
    obtain ⟨expiresAt, -, hput⟩ := Option.bind_eq_some_iff.1 hput
    cases heq
    exact ⟨hc.put hput, exists_put hc hput⟩

theorem Performed.allowed {ev : MemoryEvent V} (hc : c.Consistent)
    (hallowed : Allowed c.maxItems c.maxSize c.entries) (hstep : Performed c c' ev) :
    Allowed c.maxItems c.maxSize c'.entries := by
  cases hstep with
  | accepted _ _ _ _ hkept _ => exact hkept.allowed
  | hit _ _ hentry hentries _ =>
    rw [hentries]
    exact hallowed.perm (perm_of_find? hc.nodup hentry).symm
  | dropped _ _ hsub _ _ => exact hallowed.sublist hsub

theorem Bounded.perform (hc : Bounded settings c)
    (hrun : c.perform now call = some (answer, c')) : Bounded settings c' := by
  obtain ⟨hconsistent, hmaxSize, hmaxItems, httl, hallowed⟩ := hc
  rw [← hmaxSize, ← hmaxItems] at hallowed
  have hallowed' := (performed_of_perform hconsistent hrun).allowed hconsistent hallowed
  rw [hmaxSize, hmaxItems] at hallowed'
  obtain ⟨hconsistent', entries, size, metrics, rfl⟩ := hconsistent.perform hrun
  exact ⟨hconsistent', hmaxSize, hmaxItems, httl, hallowed'⟩

theorem bounded_of_reaches (hreach : Reaches (new settings) h c) : Bounded settings c := by
  induction hreach with
  | start => exact bounded_new settings
  | call _ hrun ih => exact ih.perform hrun

/-- A call has a result whenever the bound of the total is below half of the words and the time of
expiry is a word. -/
theorem Bounded.exists_perform (hc : Bounded settings c) (hhalf : settings.maxSize.toNat < 2 ^ 63)
    (hexpiry : ∀ o, call.offer? settings.ttl = some o → ∀ d, o.ttl = some d →
      now.toNat + d.toNat < UInt64.size) :
    ∃ answer c', c.perform now call = some (answer, c') := by
  rcases hoffer : call.offer? settings.ttl with _ | o
  · cases call with
    | set _ _ _ => cases hoffer
    | setWithTtl _ => cases hoffer
    | get _ => exact ⟨_, _, rfl⟩
    | contains _ => exact ⟨_, _, rfl⟩
    | remove _ => exact ⟨_, _, rfl⟩
    | purgeExpired => exact ⟨_, _, rfl⟩
    | clear => exact ⟨_, _, rfl⟩
  · have hentry : ∃ expiresAt, expiryOf? now o.ttl = some expiresAt := by
      rcases httl : o.ttl with _ | d
      · exact ⟨none, rfl⟩
      · rw [expiryOf?, Amount.sum?, if_pos (hexpiry o hoffer d httl)]
        exact ⟨_, rfl⟩
    obtain ⟨expiresAt, hexpiresAt⟩ := hentry
    rw [perform_offer (hc.ttl ▸ hoffer), hexpiresAt, Option.bind_some, put]
    obtain ⟨size, hdrop⟩ := exists_dropEntry c o.key
    have hdropped := (hc.consistent.dropEntry o.key).size
    have hothers := (hc.allowed.sublist (List.filter_sublist (p := fun e => e.key != o.key))).size
    have hkey : (o.entry expiresAt).key = o.key := rfl
    rw [hkey]
    split
    · exact ⟨_, _, rfl⟩
    · next hfits =>
      -- the value fits alone and so do the others, so both together stay below a word
      have hfits : o.size.toNat ≤ settings.maxSize.toNat := by
        rw [hdrop, ← hc.maxSize] at *
        exact UInt64.le_iff_toNat_le.1 (UInt64.not_lt.1 hfits)
      have hsum : (c.dropEntry o.key).currentSize.toNat + (o.entry expiresAt).size.toNat <
          UInt64.size := by
        have hsize : (o.entry expiresAt).size = o.size := rfl
        have hwords : UInt64.size = 2 ^ 64 := rfl
        rw [hdropped, entries_dropEntry, hsize]
        omega
      rw [Amount.sum?, if_pos hsum]
      exact ⟨_, _, rfl⟩

theorem mem_le_total {l : List (MemoryEntry V)} {e : MemoryEntry V} (he : e ∈ l) :
    e.size.toNat ≤ total l := by
  have hone : total [e] ≤ total l := total_sublist (List.singleton_sublist.2 he)
  rwa [total_cons, total, List.map_nil, List.sum_nil, Nat.add_zero] at hone

/-- **In every run, the accounting is exact.** No key has two entries, the total is the sum of their
sizes, so that no entry is larger than what is taken off when it goes, and both bounds hold. If the
bound of the total is below half of the words, every call whose time of expiry is a word has a
result: no sum of sizes is too large. -/
theorem reaches_within_bounds (hreach : Reaches (new settings) h c) :
    (c.entries.map (·.key)).Nodup ∧ c.currentSize.toNat = total c.entries ∧
      (∀ e ∈ c.entries, e.size ≤ c.currentSize) ∧ c.currentSize ≤ settings.maxSize ∧
      c.size ≤ settings.maxItems.toNat ∧
      (settings.maxSize.toNat < 2 ^ 63 → ∀ now call,
        (∀ o, call.offer? settings.ttl = some o → ∀ d, o.ttl = some d →
          now.toNat + d.toNat < UInt64.size) →
        ∃ answer c', c.perform now call = some (answer, c')) := by
  have hc := bounded_of_reaches hreach
  refine ⟨hc.consistent.nodup, hc.consistent.size, ?_, ?_, hc.allowed.items, ?_⟩
  · intro e he
    rw [UInt64.le_iff_toNat_le, hc.consistent.size]
    exact mem_le_total he
  · rw [UInt64.le_iff_toNat_le, hc.consistent.size]
    exact hc.allowed.size
  · intro hhalf now call hexpiry
    exact hc.exists_perform hhalf hexpiry

/-- Three values in a cache for two: the one used longest ago has gone, and a fourth one fits. -/
theorem reaches_within_bounds_two : ∃ (h : List (MemoryEvent Nat)) (c : MemoryCache Nat),
    Reaches (new ⟨10, 2, none⟩) h c ∧ c.entries.map (·.key) = ["c", "a"] ∧
      (c.entries.map (·.key)).Nodup ∧ c.currentSize.toNat = total c.entries ∧
      c.currentSize ≤ 10 ∧ ∃ answer c', c.perform 5 (.setWithTtl ⟨"d", 4, 7, some 3⟩) =
        some (answer, c') := by
  have hone := Reaches.start.call
    (show (new ⟨10, 2, none⟩ : MemoryCache Nat).perform 1 (.set "a" 1 4) = some (_, _) from rfl)
  have htwo := hone.call (show perform _ 2 (.set "b" 2 4) = some (_, _) from rfl)
  have hhit := htwo.call (show perform _ 3 (.get "a") = some (_, _) from rfl)
  have hthree := hhit.call (show perform _ 4 (.set "c" 3 4) = some (_, _) from rfl)
  obtain ⟨hnodup, htotal, -, hbound, -, hresult⟩ := reaches_within_bounds hthree
  refine ⟨_, _, hthree, rfl, hnodup, htotal, hbound, hresult (by decide) 5 _ ?_⟩
  rintro o ho d hd
  cases ho
  cases hd
  decide

end MemoryCache

end CodeGraph.Cache
