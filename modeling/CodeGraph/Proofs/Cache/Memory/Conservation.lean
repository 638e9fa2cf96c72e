import CodeGraph.Proofs.Cache.Memory.Purging

/-!
# Where the entries of the memory layer have gone

Every value that a cache has accepted is still in it or has left it in one of five ways: another store
found it under its key, it was evicted, its time had come, it was removed, or the cache was cleared
(`MemoryCache.entries_accounted`). Evictions and expirations are told by the counters of the cache,
which are 64-bit words, removals by its answers, and the other two ways by what the calls have met: a
run is therefore read with the cache before each event (`MemoryCache.met`).

One call keeps the account (`MemoryCache.Posted`, `MemoryCache.exists_posted`), whichever it is, so a
run does (`MemoryCache.Balanced`).
-/

namespace CodeGraph.Cache

namespace Metrics

/-- Counters that have gone on, round the 64-bit words if need be. -/
def grown (m : Metrics) (hits misses evicted expired : Nat) : Metrics :=
  ⟨m.hits + .ofNat hits, m.misses + .ofNat misses, m.evictions + .ofNat evicted,
    m.expirations + .ofNat expired⟩

theorem grown_zero (m : Metrics) : m.grown 0 0 0 0 = m := by
  simp [grown]

theorem grown_grown (m : Metrics) (hits misses evicted expired hits' misses' evicted' expired' : Nat) :
    (m.grown hits misses evicted expired).grown hits' misses' evicted' expired' =
      m.grown (hits + hits') (misses + misses') (evicted + evicted') (expired + expired') := by
  simp only [grown, UInt64.ofNat_add, UInt64.add_assoc]

end Metrics

namespace MemoryEvent

variable {V : Type}

/-- Whether a value was stored. -/
def isStore (ev : MemoryEvent V) : Bool :=
  match ev.answer with
  | .stored kept => kept
  | _ => false

/-- Whether a value was removed. -/
def isRemoval (ev : MemoryEvent V) : Bool :=
  match ev.answer with
  | .removed value => value.isSome
  | _ => false

/-- Whether a value was asked for. -/
def isLookup (ev : MemoryEvent V) : Bool :=
  match ev.call with
  | .get _ => true
  | _ => false

/-- Whether a store, accepted or not, finds an entry of its key. -/
def replaces (ev : MemoryEvent V) (c : MemoryCache V) : Bool :=
  c.entries.any fun e => ev.call.offers e.key

/-- How many entries an event clears away. -/
def clears (ev : MemoryEvent V) (c : MemoryCache V) : Nat :=
  match ev.call with
  | .clear => c.size
  | _ => 0

end MemoryEvent

namespace MemoryCache

variable {V : Type} {settings : MemorySettings} {start c c' : MemoryCache V}
  {h : List (MemoryEvent V)} {now : UInt64} {call : MemoryCall V} {answer : MemoryAnswer V}
  {ev : MemoryEvent V}

/-! ## Runs with what their calls have met -/

/-- The cache that a history leads to. -/
def after (start : MemoryCache V) : List (MemoryEvent V) → MemoryCache V
  | [] => start
  | ev :: h => (((after start h).perform ev.time ev.call).map Prod.snd).getD (after start h)

theorem after_of_reaches (hreach : Reaches start h c) : after start h = c := by
  induction hreach with
  | start => rfl
  | call _ hrun ih => rw [after, ih, hrun, Option.map_some, Option.getD_some]

/-- The events of a history, each with the cache that it has met. -/
def met (start : MemoryCache V) : List (MemoryEvent V) → List (MemoryEvent V × MemoryCache V)
  | [] => []
  | ev :: h => (ev, after start h) :: met start h

/-- How many stores have found an entry of their key. -/
def replaced (start : MemoryCache V) (h : List (MemoryEvent V)) : Nat :=
  (met start h).countP fun x => x.1.replaces x.2

/-- How many entries there were when the cache was cleared, added up. -/
def cleared (start : MemoryCache V) (h : List (MemoryEvent V)) : Nat :=
  ((met start h).map fun x => x.1.clears x.2).sum

/-! ## One call -/

/-- What a call does to the number of entries and to the counters. -/
structure Posted (c c' : MemoryCache V) (ev : MemoryEvent V)
    (hits misses evicted expired : Nat) : Prop where
  metrics : c'.metrics = c.metrics.grown hits misses evicted expired
  entries : (if ev.isStore then 1 else 0) + c.size =
    c'.size + evicted + expired + (if ev.isRemoval then 1 else 0) +
      (if ev.replaces c then 1 else 0) + ev.clears c
  lookups : hits + misses = if ev.isLookup then 1 else 0

/-- Of the entries in a cache at most one has a key. -/
theorem Consistent.size_eq (hc : c.Consistent) (key : String) :
    c.size = (c.entries.filter fun e => e.key != key).length +
      if (c.entry? key).isSome then 1 else 0 := by
  rcases hentry : c.entry? key with _ | e
  · have hall : ∀ e ∈ c.entries, e.key != key := fun e he => by
      simpa using List.find?_eq_none.1 hentry e he
    rw [List.filter_eq_self.2 hall]
    rfl
  · exact (perm_of_find? hc.nodup hentry).length_eq

theorem replaces_of_offer {configured : Option UInt64} {o : Offer V}
    (ho : ev.call.offer? configured = some o) (c : MemoryCache V) :
    ev.replaces c = (c.entry? o.key).isSome := by
  rw [Bool.eq_iff_iff, MemoryEvent.replaces, entry?, List.any_eq_true, List.find?_isSome]
  refine exists_congr fun e => and_congr_right fun _ => ?_
  rw [MemoryCall.offers_offer ho, beq_iff_eq, eq_comm]

/-- Entries that are evicted are counted. -/
theorem exists_evicted (c : MemoryCache V) :
    ∃ evicted, c.evict.metrics = c.metrics.grown 0 0 evicted 0 ∧
      c.size = c.evict.size + evicted := by
  refine ⟨c.entries.length - c.evict.entries.length, ?_, ?_⟩
  · have hcount := evictions_evict c
    have hothers : c.evict.metrics = { c.metrics with evictions := c.evict.metrics.evictions } := rfl
    rw [hothers, hcount]
    simp [Metrics.grown]
  · exact (Nat.add_sub_of_le (entries_evict c).length_le).symm

/-- A store takes the place of the entry of its key, if there is one, and may evict others. -/
theorem posted_of_offer (hc : c.Consistent) {o : Offer V} (ho : call.offer? c.ttl = some o)
    (hrun : c.perform now call = some (answer, c')) :
    ∃ evicted, Posted c c' ⟨now, call, answer⟩ 0 0 evicted 0 := by
  have hreplaces : (⟨now, call, answer⟩ : MemoryEvent V).replaces c = (c.entry? o.key).isSome :=
    replaces_of_offer ho c
  have hsize := hc.size_eq o.key
  have hcall : (⟨now, call, answer⟩ : MemoryEvent V).isLookup = false ∧
      (⟨now, call, answer⟩ : MemoryEvent V).clears c = 0 := by
    cases call <;> cases ho <;> exact ⟨rfl, rfl⟩
  rw [perform_offer ho] at hrun
  obtain ⟨⟨kept, c''⟩, hput, heq⟩ := Option.map_eq_some_iff.1 hrun
  cases heq
  obtain ⟨expiresAt, -, hput⟩ := Option.bind_eq_some_iff.1 hput
  rcases put_cases hc hput with ⟨rfl, -, hdropped⟩ | ⟨rfl, -, stored, hstored, -, rfl⟩
  · obtain ⟨others, hdrop⟩ := exists_dropEntry c o.key
    obtain rfl := hdropped.trans hdrop
    refine ⟨0, (Metrics.grown_zero _).symm, ?_, by rw [hcall.1]; rfl⟩
    rw [hreplaces, hcall.2, hsize]
    simp [MemoryEvent.isStore, MemoryEvent.isRemoval, MemoryCache.size]
  · obtain ⟨evicted, hmetrics, hevicted⟩ := exists_evicted stored
    obtain ⟨size, rfl⟩ := hstored
    refine ⟨evicted, hmetrics, ?_, by rw [hcall.1]; rfl⟩
    have hnew : (c.entries.filter fun e => e.key != o.key).length + 1 = _ := hevicted
    rw [hreplaces, hcall.2, hsize]
    simp only [MemoryEvent.isStore, MemoryEvent.isRemoval, if_true, Bool.false_eq_true, if_false]
    omega

/-- A call that offers nothing finds no entry of the key that it offers. -/
theorem replaces_of_no_offer (hno : ∀ key, ev.call.offers key = false) (c : MemoryCache V) :
    ev.replaces c = false :=
  List.any_eq_false.2 fun e _ => by rw [hno]; exact Bool.false_ne_true

theorem posted_of_get (hc : c.Consistent) (now : UInt64) (key : String) :
    ∃ hits misses expired, Posted c (c.get now key).2 ⟨now, .get key, .found (c.get now key).1⟩
      hits misses 0 expired := by
  have hsize := hc.size_eq key
  have hreplaces : (⟨now, .get key, .found (c.get now key).1⟩ : MemoryEvent V).replaces c = false :=
    replaces_of_no_offer (fun _ => rfl) c
  rcases hentry : c.entry? key with _ | e
  · rw [get_of_missing hentry] at hreplaces ⊢
    exact ⟨0, 1, 0, by simp [Metrics.grown], by
      rw [hreplaces]
      simp [MemoryEvent.isStore, MemoryEvent.isRemoval, MemoryEvent.clears, size], rfl⟩
  rw [hentry] at hsize
  rcases hexpired : e.isExpired now with _ | _
  · rw [get_of_live hentry hexpired] at hreplaces ⊢
    exact ⟨1, 0, 0, by simp [Metrics.grown], by
      rw [hreplaces, hsize]
      simp [MemoryEvent.isStore, MemoryEvent.isRemoval, MemoryEvent.clears, size], rfl⟩
  · obtain ⟨size', hget⟩ := get_of_expired hentry hexpired
    rw [hget] at hreplaces ⊢
    exact ⟨0, 1, 1, by simp [Metrics.grown], by
      rw [hreplaces, hsize]
      simp [MemoryEvent.isStore, MemoryEvent.isRemoval, MemoryEvent.clears, size], rfl⟩

/-- Every call keeps the account. -/
theorem exists_posted (hc : c.Consistent) (hrun : c.perform now call = some (answer, c')) :
    ∃ hits misses evicted expired, Posted c c' ⟨now, call, answer⟩ hits misses evicted expired := by
  cases call with
  | set key value size =>
    obtain ⟨evicted, hposted⟩ := posted_of_offer hc rfl hrun
    exact ⟨0, 0, evicted, 0, hposted⟩
  | setWithTtl o =>
    obtain ⟨evicted, hposted⟩ := posted_of_offer hc rfl hrun
    exact ⟨0, 0, evicted, 0, hposted⟩
  | get key =>
    cases hrun
    obtain ⟨hits, misses, expired, hposted⟩ := posted_of_get hc now key
    exact ⟨hits, misses, 0, expired, hposted⟩
  | contains key =>
    cases hrun
    refine ⟨0, 0, 0, 0, (Metrics.grown_zero _).symm, ?_, rfl⟩
    rw [replaces_of_no_offer fun _ => rfl]
    simp [MemoryEvent.isStore, MemoryEvent.isRemoval, MemoryEvent.clears]
  | remove key =>
    have hsize := hc.size_eq key
    obtain ⟨size', hdrop⟩ := exists_dropEntry c key
    cases hrun
    rw [remove, hdrop]
    refine ⟨0, 0, 0, 0, (Metrics.grown_zero _).symm, ?_, rfl⟩
    rw [replaces_of_no_offer fun _ => rfl, hsize]
    simp [MemoryEvent.isStore, MemoryEvent.isRemoval, MemoryEvent.clears, size]
  | purgeExpired =>
    obtain ⟨size', -, hpurge⟩ := hc.purgeExpired_eq now
    have hlength := length_live c now
    cases hrun
    rw [hpurge]
    refine ⟨0, 0, 0, c.entries.countP (·.isExpired now), by simp [Metrics.grown], ?_, rfl⟩
    rw [replaces_of_no_offer fun _ => rfl, ← hlength]
    simp [MemoryEvent.isStore, MemoryEvent.isRemoval, MemoryEvent.clears, size, Nat.add_comm]
  | clear =>
    cases hrun
    refine ⟨0, 0, 0, 0, (Metrics.grown_zero _).symm, ?_, rfl⟩
    rw [replaces_of_no_offer fun _ => rfl]
    simp [MemoryEvent.isStore, MemoryEvent.isRemoval, MemoryEvent.clears, clear, size]

/-! ## Every run -/

/-- What a run has done to the number of entries and to the counters. -/
structure Balanced (start : MemoryCache V) (h : List (MemoryEvent V)) (c : MemoryCache V)
    (hits misses evicted expired : Nat) : Prop where
  metrics : c.metrics = start.metrics.grown hits misses evicted expired
  entries : h.countP (·.isStore) + start.size =
    c.size + evicted + expired + h.countP (·.isRemoval) + replaced start h + cleared start h
  lookups : hits + misses = h.countP (·.isLookup)

theorem Balanced.enter {hits misses evicted expired hits' misses' evicted' expired' : Nat}
    (hreach : Reaches start h c) (hbalanced : Balanced start h c hits misses evicted expired)
    (hposted : Posted c c' ev hits' misses' evicted' expired') :
    Balanced start (ev :: h) c' (hits + hits') (misses + misses') (evicted + evicted')
      (expired + expired') := by
  refine ⟨?_, ?_, ?_⟩
  · rw [hposted.metrics, hbalanced.metrics, Metrics.grown_grown]
  · have hrun := hbalanced.entries
    have hcall := hposted.entries
    simp only [replaced, cleared, met, after_of_reaches hreach, List.countP_cons, List.map_cons,
      List.sum_cons] at hrun ⊢
    omega
  · have hrun := hbalanced.lookups
    have hcall := hposted.lookups
    rw [List.countP_cons]
    omega

theorem exists_balanced (hstart : start.Consistent) (hreach : Reaches start h c) :
    c.Consistent ∧ ∃ hits misses evicted expired,
      Balanced start h c hits misses evicted expired := by
  induction hreach with
  | start =>
    exact ⟨hstart, 0, 0, 0, 0, (Metrics.grown_zero _).symm, by simp [replaced, cleared, met], rfl⟩
  | call hreach hrun ih =>
    obtain ⟨hc, hits, misses, evicted, expired, hbalanced⟩ := ih
    obtain ⟨hits', misses', evicted', expired', hposted⟩ := exists_posted hc hrun
    exact ⟨(hc.perform hrun).1, _, _, _, _, hbalanced.enter hreach hposted⟩

/-- The counters of a fresh cache start at zero. -/
theorem Balanced.of_new {hits misses evicted expired : Nat}
    (hbalanced : Balanced (new settings) h c hits misses evicted expired) :
    c.metrics = ⟨.ofNat hits, .ofNat misses, .ofNat evicted, .ofNat expired⟩ := by
  simpa only [Metrics.grown, new, UInt64.zero_add] using hbalanced.metrics

/-- **Every entry is accounted for once.** The stores that were accepted since a cache was new are as
many as its entries, the evictions and the expirations that it has counted, the removals that found
a value, the stores that found their key in the cache, and the entries that were there when it was
cleared, all added up; hits and misses are as many as the lookups; and no call but a lookup changes
the hits or the misses. The counters are 64-bit words: the sums hold in these always, and as they
stand as long as the stores, or the lookups, are few enough to be counted. -/
theorem entries_accounted (hreach : Reaches (new settings) h c) :
    (UInt64.ofNat (h.countP (·.isStore)) =
        .ofNat c.size + c.metrics.evictions + c.metrics.expirations +
          .ofNat (h.countP (·.isRemoval) + replaced (new settings) h + cleared (new settings) h) ∧
      (h.countP (·.isStore) < UInt64.size → h.countP (·.isStore) =
        c.size + c.metrics.evictions.toNat + c.metrics.expirations.toNat +
          h.countP (·.isRemoval) + replaced (new settings) h + cleared (new settings) h)) ∧
    (c.metrics.hits + c.metrics.misses = .ofNat (h.countP (·.isLookup)) ∧
      (h.countP (·.isLookup) < UInt64.size →
        c.metrics.hits.toNat + c.metrics.misses.toNat = h.countP (·.isLookup))) ∧
    ∀ now call answer c', (∀ key, call ≠ .get key) → c.perform now call = some (answer, c') →
      c'.metrics.hits = c.metrics.hits ∧ c'.metrics.misses = c.metrics.misses := by
  obtain ⟨hc, hits, misses, evicted, expired, hbalanced⟩ :=
    exists_balanced (consistent_new settings) hreach
  have hentries := hbalanced.entries
  have hfresh : (new settings : MemoryCache V).size = 0 := rfl
  rw [hfresh, Nat.add_zero] at hentries
  refine ⟨⟨?_, fun hfew => ?_⟩, ⟨?_, fun hfew => ?_⟩, fun now call answer c' hno hrun => ?_⟩
  · simp only [hentries, hbalanced.of_new, UInt64.ofNat_add, UInt64.add_assoc]
  · have hevictions : c.metrics.evictions.toNat = evicted := by
      rw [hbalanced.of_new]
      exact UInt64.toNat_ofNat_of_lt' (by omega)
    have hexpirations : c.metrics.expirations.toNat = expired := by
      rw [hbalanced.of_new]
      exact UInt64.toNat_ofNat_of_lt' (by omega)
    rw [hevictions, hexpirations, hentries]
  · rw [hbalanced.of_new, ← hbalanced.lookups, UInt64.ofNat_add]
  · rw [← hbalanced.lookups] at hfew
    have hhits : c.metrics.hits.toNat = hits := by
      rw [hbalanced.of_new]
      exact UInt64.toNat_ofNat_of_lt' (by omega)
    have hmisses : c.metrics.misses.toNat = misses := by
      rw [hbalanced.of_new]
      exact UInt64.toNat_ofNat_of_lt' (by omega)
    rw [hhits, hmisses, hbalanced.lookups]
  · obtain ⟨hits', misses', evicted', expired', hposted⟩ := exists_posted hc hrun
    have hlookup : (⟨now, call, answer⟩ : MemoryEvent V).isLookup = false := by
      cases call with
      | get key => exact absurd rfl (hno key)
      | _ => rfl
    obtain ⟨rfl, rfl⟩ : hits' = 0 ∧ misses' = 0 :=
      Nat.add_eq_zero_iff.1 (by rw [hposted.lookups, hlookup]; rfl)
    rw [hposted.metrics]
    exact ⟨UInt64.add_zero _, UInt64.add_zero _⟩

/-- Of the entries of six accepted stores one is replaced, one lost to a store that is refused, one
evicted, one found expired by a lookup, one removed, and the last cleared away. -/
theorem entries_accounted_six : ∃ (h : List (MemoryEvent Nat)) (c : MemoryCache Nat),
    Reaches (new ⟨10, 2, none⟩) h c ∧ h.countP (·.isStore) = 6 ∧ c.size = 0 ∧
      h.countP (·.isRemoval) = 1 ∧ replaced (new ⟨10, 2, none⟩) h = 2 ∧
      cleared (new ⟨10, 2, none⟩) h = 1 ∧ h.countP (·.isLookup) = 2 ∧
      h.countP (·.isStore) =
        c.size + c.metrics.evictions.toNat + c.metrics.expirations.toNat +
          h.countP (·.isRemoval) + replaced (new ⟨10, 2, none⟩) h +
          cleared (new ⟨10, 2, none⟩) h ∧
      c.metrics.hits.toNat + c.metrics.misses.toNat = h.countP (·.isLookup) ∧
      ∀ answer c', c.perform 9 .purgeExpired = some (answer, c') →
        c'.metrics.misses = c.metrics.misses := by
  have hone := Reaches.start.call
    (show (new ⟨10, 2, none⟩ : MemoryCache Nat).perform 1 (.set "a" 1 4) = some (_, _) from rfl)
  have htwo := hone.call (show perform _ 2 (.set "a" 2 5) = some (_, _) from rfl)
  have hthree := htwo.call
    (show perform _ 3 (.setWithTtl ⟨"b", 3, 2, some 4⟩) = some (_, _) from rfl)
  have hfour := hthree.call (show perform _ 4 (.set "c" 4 2) = some (_, _) from rfl)
  have hrefused := hfour.call (show perform _ 5 (.set "c" 5 11) = some (_, _) from rfl)
  have hexpired := hrefused.call (show perform _ 7 (.get "b") = some (_, _) from rfl)
  have hfive := hexpired.call (show perform _ 7 (.set "d" 6 3) = some (_, _) from rfl)
  have hremoved := hfive.call (show perform _ 7 (.remove "d") = some (_, _) from rfl)
  have hsix := hremoved.call (show perform _ 8 (.set "e" 7 3) = some (_, _) from rfl)
  have hhit := hsix.call (show perform _ 8 (.get "e") = some (_, _) from rfl)
  have hcleared := hhit.call (show perform _ 8 .clear = some (_, _) from rfl)
  obtain ⟨⟨-, hentries⟩, ⟨-, hlookups⟩, hothers⟩ := entries_accounted hcleared
  refine ⟨_, _, hcleared, rfl, rfl, rfl, rfl, rfl, rfl, hentries (by decide), hlookups (by decide), ?_⟩
  exact fun answer c' hrun => (hothers 9 .purgeExpired answer c' nofun hrun).2

end MemoryCache

end CodeGraph.Cache
