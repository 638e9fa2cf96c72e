import Mathlib.Data.List.Nodup
import CodeGraph.Proofs.Cache.Memory.Answers

/-!
# Purging the memory layer

Purging drops the entries whose time has come, all of them and no others, and leaves the rest in the
order of their last use (`MemoryCache.Consistent.purgeExpired_eq`). A lookup drops the one entry that
it comes upon when its time has come.

Whether a cache was purged cannot be told by looking into it afterwards
(`MemoryCache.purging_unnoticed`). The purged cache is the other one without the entries whose time
had come when it was purged (`MemoryCache.Thinned`). No lookup from that time on answers one of these,
so each is answered alike and leaves the two caches as far apart as they were. The lookups need not
come in the order of their times.
-/

namespace CodeGraph.Cache

namespace MemoryEntry

variable {V : Type} {e : MemoryEntry V} {now later : UInt64}

/-- An entry whose time has come does not come back later. -/
theorem isExpired_of_le (hle : now ≤ later) (h : e.isExpired now = true) :
    e.isExpired later = true := by
  rw [isExpired, Option.any_eq_true] at h ⊢
  obtain ⟨t, ht, hnow⟩ := h
  exact ⟨t, ht, decide_eq_true (UInt64.le_trans (of_decide_eq_true hnow) hle)⟩

end MemoryEntry

namespace MemoryCall

variable {V : Type}

/-- Whether a call looks for an entry. -/
def looks : MemoryCall V → Bool
  | .get _ | .contains _ => true
  | .set _ _ _ | .setWithTtl _ | .remove _ | .purgeExpired | .clear => false

end MemoryCall

namespace MemoryCache

variable {V : Type} {settings : MemorySettings} {c purged : MemoryCache V}
  {h : List (MemoryEvent V)} {now later : UInt64} {key : String}

/-! ## Entries by their keys -/

theorem find?_key_eq_some_iff {l : List (MemoryEntry V)} (hl : (l.map (·.key)).Nodup)
    {e : MemoryEntry V} : l.find? (fun e => e.key == key) = some e ↔ e ∈ l ∧ e.key = key := by
  constructor
  · intro h
    exact ⟨List.mem_of_find?_eq_some h, by simpa using List.find?_some h⟩
  · rintro ⟨he, hkey⟩
    have hthere : (l.find? fun e => e.key == key).isSome :=
      List.find?_isSome.2 ⟨e, he, by simpa using hkey⟩
    obtain ⟨e', hfind⟩ := Option.isSome_iff_exists.1 hthere
    have hkey' : e'.key = key := by simpa using List.find?_some hfind
    have hsame : e' = e := List.inj_on_of_nodup_map hl (List.mem_of_find?_eq_some hfind) he
      (hkey'.trans hkey.symm)
    rw [hfind, hsame]

theorem Consistent.entry?_eq_some_iff (hc : c.Consistent) {e : MemoryEntry V} :
    c.entry? key = some e ↔ e ∈ c.entries ∧ e.key = key :=
  find?_key_eq_some_iff hc.nodup

/-! ## The three ways of a lookup -/

theorem get_of_missing (hentry : c.entry? key = none) (now : UInt64) :
    c.get now key =
      (none, { c with metrics := { c.metrics with misses := c.metrics.misses + 1 } }) := by
  simp only [get, hentry]

theorem get_of_expired {e : MemoryEntry V} (hentry : c.entry? key = some e)
    (hexpired : e.isExpired now = true) :
    ∃ size, c.get now key = (none, { c with
      entries := c.entries.filter fun e => e.key != key
      currentSize := size
      metrics := { c.metrics with
        expirations := c.metrics.expirations + 1
        misses := c.metrics.misses + 1 } }) := by
  obtain ⟨size, hdrop⟩ := exists_dropEntry c key
  simp only [get, hentry, hexpired, if_true, hdrop]
  exact ⟨size, rfl⟩

theorem get_of_live {e : MemoryEntry V} (hentry : c.entry? key = some e)
    (hlive : e.isExpired now = false) :
    c.get now key = (some e.value, { c with
      entries := e :: c.entries.filter fun e => e.key != key
      metrics := { c.metrics with hits := c.metrics.hits + 1 } }) := by
  simp only [get, hentry, hlive, Bool.false_eq_true, if_false]

/-! ## What purging leaves -/

/-- The entries whose time has not come, in the order of their last use. -/
def live (c : MemoryCache V) (now : UInt64) : List (MemoryEntry V) :=
  c.entries.filter fun e => !e.isExpired now

theorem mem_live {e : MemoryEntry V} : e ∈ c.live now ↔ e ∈ c.entries ∧ e.isExpired now = false := by
  rw [live, List.mem_filter, Bool.not_eq_true']

theorem entries_foldl_dropEntry (l : List (MemoryEntry V)) (c : MemoryCache V) :
    (l.foldl (fun c e => c.dropEntry e.key) c).entries =
      c.entries.filter fun e => l.all fun x => e.key != x.key := by
  induction l generalizing c with
  | nil => exact (List.filter_eq_self.2 fun _ _ => rfl).symm
  | cons x l ih =>
    rw [List.foldl_cons, ih, entries_dropEntry, List.filter_filter]
    exact List.filter_congr fun e _ => Bool.and_comm _ _

/-- The keys of the entries whose time has come are those of no other entries. -/
theorem Consistent.entries_purgeExpired (hc : c.Consistent) (now : UInt64) :
    (c.purgeExpired now).2.entries = c.live now := by
  refine (entries_foldl_dropEntry _ c).trans (List.filter_congr fun e he => ?_)
  rcases hexpired : e.isExpired now with _ | _
  · refine List.all_eq_true.2 fun x hx => bne_iff_ne.2 fun hkey => ?_
    obtain ⟨hx, hx'⟩ := List.mem_filter.1 hx
    obtain rfl := List.inj_on_of_nodup_map hc.nodup he hx hkey
    rw [hexpired] at hx'
    cases hx'
  · refine List.all_eq_false.2 ⟨e, List.mem_filter.2 ⟨he, hexpired⟩, ?_⟩
    simp

/-- Purging counts the entries whose time has come and keeps the others. -/
theorem Consistent.purgeExpired_eq (hc : c.Consistent) (now : UInt64) :
    ∃ size, size.toNat = total (c.live now) ∧
      c.purgeExpired now = (c.entries.countP (·.isExpired now), { c with
        entries := c.live now
        currentSize := size
        metrics := { c.metrics with
          expirations := c.metrics.expirations +
            UInt64.ofNat (c.entries.countP (·.isExpired now)) } }) := by
  have hentries := hc.entries_purgeExpired now
  have htotal := (hc.foldl_dropEntry (c.entries.filter fun e => e.isExpired now)).size
  obtain ⟨entries, size, -, hfold⟩ :=
    exists_foldl_dropEntry (c.entries.filter fun e => e.isExpired now) c
  rw [purgeExpired, hfold] at hentries ⊢
  rw [hfold] at htotal
  obtain rfl : entries = c.live now := hentries
  rw [List.countP_eq_length_filter]
  exact ⟨size, htotal, rfl⟩

theorem length_live (c : MemoryCache V) (now : UInt64) :
    c.entries.countP (·.isExpired now) + (c.live now).length = c.size := by
  have hcount := c.entries.length_eq_countP_add_countP fun e => e.isExpired now
  rw [live, ← List.countP_eq_length_filter, size, hcount]
  simp

/-! ## Looking into a purged cache -/

/-- A cache without the entries whose time has come, and with the same hits and misses. -/
structure Thinned (now : UInt64) (c purged : MemoryCache V) : Prop where
  entries : purged.entries = c.live now
  hits : purged.metrics.hits = c.metrics.hits
  misses : purged.metrics.misses = c.metrics.misses

theorem Thinned.purgeExpired (hc : c.Consistent) (now : UInt64) :
    Thinned now c (c.purgeExpired now).2 := by
  obtain ⟨size, -, heq⟩ := hc.purgeExpired_eq now
  rw [heq]
  exact ⟨rfl, rfl, rfl⟩

/-- The entry of a key is still there unless its time has come. -/
theorem Thinned.entry? (hthin : Thinned now c purged) (hc : c.Consistent) (key : String) :
    purged.entry? key = (c.entry? key).filter fun e => !e.isExpired now := by
  have hnodup : (purged.entries.map (·.key)).Nodup := by
    rw [hthin.entries]
    exact nodup_filter hc.nodup _
  ext e
  rw [MemoryCache.entry?, find?_key_eq_some_iff hnodup, hthin.entries, mem_live,
    Option.filter_eq_some_iff, hc.entry?_eq_some_iff, Bool.not_eq_true', and_right_comm]

theorem Thinned.live_filter (hthin : Thinned now c purged) (key : String) :
    (c.entries.filter fun e => e.key != key).filter (fun e => !e.isExpired now) =
      purged.entries.filter fun e => e.key != key := by
  rw [hthin.entries, live, List.filter_filter, List.filter_filter]
  exact List.filter_congr fun e _ => Bool.and_comm _ _

/-- A lookup is answered alike and leaves one cache the other without what had expired. -/
theorem Thinned.get (hthin : Thinned now c purged) (hc : c.Consistent) (hle : now ≤ later)
    (key : String) : (purged.get later key).1 = (c.get later key).1 ∧
      Thinned now (c.get later key).2 (purged.get later key).2 := by
  have hpurged := hthin.entry? hc key
  have hrest := hthin.live_filter key
  rcases hentry : c.entry? key with _ | e
  · rw [hentry, Option.filter_none] at hpurged
    rw [get_of_missing hentry, get_of_missing hpurged]
    exact ⟨rfl, hthin.entries, hthin.hits, congrArg (· + 1) hthin.misses⟩
  rw [hentry, Option.filter_some] at hpurged
  rcases hlater : e.isExpired later with _ | _
  -- the entry answers, so its time had not come at the purge either
  · have hnow : e.isExpired now = false := by
      rw [Bool.eq_false_iff]
      intro hnow
      rw [MemoryEntry.isExpired_of_le hle hnow] at hlater
      cases hlater
    rw [hnow, Bool.not_false, if_pos rfl] at hpurged
    rw [get_of_live hentry hlater, get_of_live hpurged hlater]
    refine ⟨rfl, ?_, congrArg (· + 1) hthin.hits, hthin.misses⟩
    rw [live, List.filter_cons, hnow, hrest]
    rfl
  obtain ⟨size, hget⟩ := get_of_expired hentry hlater
  rcases hnow : e.isExpired now with _ | _
  · rw [hnow, Bool.not_false, if_pos rfl] at hpurged
    obtain ⟨size', hget'⟩ := get_of_expired hpurged hlater
    rw [hget, hget']
    exact ⟨rfl, hrest.symm, hthin.hits, congrArg (· + 1) hthin.misses⟩
  -- this lookup drops what the purge has dropped
  · rw [hnow, Bool.not_true, if_neg Bool.false_ne_true] at hpurged
    have hnone : ∀ e ∈ purged.entries, e.key != key := fun e he => by
      simpa using List.find?_eq_none.1 hpurged e he
    rw [hget, get_of_missing hpurged]
    refine ⟨rfl, ?_, hthin.hits, congrArg (· + 1) hthin.misses⟩
    rw [live, hrest, List.filter_eq_self.2 hnone]

/-! ## Many lookups -/

/-- Carries out calls, each at a time of its own. -/
def performAll (c : MemoryCache V) :
    List (UInt64 × MemoryCall V) → Option (List (MemoryAnswer V) × MemoryCache V)
  | [] => some ([], c)
  | (now, call) :: calls =>
    (c.perform now call).bind fun r =>
      (performAll r.2 calls).map fun s => (r.1 :: s.1, s.2)

/-- A call that looks for an entry is answered alike. -/
theorem Thinned.perform (hthin : Thinned now c purged) (hc : c.Consistent) (hle : now ≤ later)
    {call : MemoryCall V} (hlooks : call.looks = true) :
    ∃ answer c' purged', c.perform later call = some (answer, c') ∧
      purged.perform later call = some (answer, purged') ∧ c'.Consistent ∧
      Thinned now c' purged' := by
  cases call with
  | get key =>
    obtain ⟨hanswer, hthin'⟩ := hthin.get hc hle key
    exact ⟨_, _, _, rfl, by rw [MemoryCache.perform, hanswer], hc.get later key, hthin'⟩
  | contains key =>
    have hanswer : purged.contains later key = c.contains later key := by
      rw [contains_eq_isSome, contains_eq_isSome, (hthin.get hc hle key).1]
    exact ⟨_, _, _, rfl, by rw [MemoryCache.perform, hanswer], hc, hthin⟩
  | set _ _ _ => cases hlooks
  | setWithTtl _ => cases hlooks
  | remove _ => cases hlooks
  | purgeExpired => cases hlooks
  | clear => cases hlooks

theorem Thinned.performAll (hthin : Thinned now c purged) (hc : c.Consistent)
    {calls : List (UInt64 × MemoryCall V)}
    (hcalls : ∀ x ∈ calls, x.2.looks = true ∧ now ≤ x.1) :
    ∃ answers c' purged', c.performAll calls = some (answers, c') ∧
      purged.performAll calls = some (answers, purged') ∧ Thinned now c' purged' := by
  induction calls generalizing c purged with
  | nil => exact ⟨[], c, purged, rfl, rfl, hthin⟩
  | cons x calls ih =>
    obtain ⟨⟨hlooks, hle⟩, hcalls⟩ := List.forall_mem_cons.1 hcalls
    obtain ⟨answer, c', purged', hrun, hrun', hc', hthin'⟩ := hthin.perform hc hle hlooks
    obtain ⟨answers, c'', purged'', hrest, hrest', hthin''⟩ := ih hthin' hc' hcalls
    refine ⟨answer :: answers, c'', purged'', ?_, ?_, hthin''⟩
    · simp [MemoryCache.performAll, hrun, hrest]
    · simp [MemoryCache.performAll, hrun', hrest']

/-- **Whether a cache was purged cannot be told from lookups.** In every run, purging drops exactly
the entries whose time has come, answers how many these are, and leaves the others in the order of
their last use. Lookups from that time on, in any order of their times, have the same answers and
count the same hits and misses whether or not the cache was purged before them, and leave the same
entries but for those whose time had come. -/
theorem purging_unnoticed (hreach : Reaches (new settings) h c) (now : UInt64) :
    (c.purgeExpired now).1 = c.entries.countP (·.isExpired now) ∧
      (c.purgeExpired now).1 + (c.purgeExpired now).2.size = c.size ∧
      (c.purgeExpired now).2.entries = c.live now ∧
      ∀ calls : List (UInt64 × MemoryCall V), (∀ x ∈ calls, x.2.looks = true ∧ now ≤ x.1) →
        ∃ answers kept purged, c.performAll calls = some (answers, kept) ∧
          (c.purgeExpired now).2.performAll calls = some (answers, purged) ∧
          purged.metrics.hits = kept.metrics.hits ∧
          purged.metrics.misses = kept.metrics.misses ∧ purged.entries = kept.live now := by
  have hc := (bounded_of_reaches hreach).consistent
  obtain ⟨size, -, heq⟩ := hc.purgeExpired_eq now
  refine ⟨congrArg Prod.fst heq, ?_, hc.entries_purgeExpired now, ?_⟩
  · rw [heq]
    exact length_live c now
  · intro calls hcalls
    obtain ⟨answers, kept, purged, hkept, hpurged, hthin⟩ :=
      (Thinned.purgeExpired hc now).performAll hc hcalls
    exact ⟨answers, kept, purged, hkept, hpurged, hthin.hits, hthin.misses, hthin.entries⟩

/-- Of three entries one has expired at the purge and one expires after it; the times of the lookups
go up and down. -/
theorem purging_unnoticed_three : ∃ (h : List (MemoryEvent Nat)) (c : MemoryCache Nat),
    Reaches (new ⟨10, 3, none⟩) h c ∧ (c.purgeExpired 5).1 = 1 ∧
      (c.live 5).map (·.key) = ["c", "b"] ∧
      ∃ answers kept purged, c.performAll [(7, .get "b"), (9, .get "c"), (5, .contains "a"),
          (6, .get "c"), (6, .get "a")] = some (answers, kept) ∧
        (c.purgeExpired 5).2.performAll [(7, .get "b"), (9, .get "c"), (5, .contains "a"),
          (6, .get "c"), (6, .get "a")] = some (answers, purged) ∧
        purged.metrics.misses = kept.metrics.misses ∧ kept.metrics.misses = 3 := by
  have hone := Reaches.start.call (show (new ⟨10, 3, none⟩ : MemoryCache Nat).perform 1
    (.setWithTtl ⟨"a", 1, 2, some 3⟩) = some (_, _) from rfl)
  have htwo := hone.call (show perform _ 2 (.set "b" 2 2) = some (_, _) from rfl)
  have hthree := htwo.call
    (show perform _ 3 (.setWithTtl ⟨"c", 3, 2, some 6⟩) = some (_, _) from rfl)
  obtain ⟨hcount, -, -, hlooks⟩ := purging_unnoticed hthree 5
  obtain ⟨answers, kept, purged, hkept, hpurged, -, hmisses, -⟩ :=
    hlooks [(7, .get "b"), (9, .get "c"), (5, .contains "a"), (6, .get "c"), (6, .get "a")]
      (by simp [MemoryCall.looks])
  refine ⟨_, _, hthree, hcount, rfl, answers, kept, purged, hkept, hpurged, hmisses, ?_⟩
  cases hkept
  rfl

end MemoryCache

end CodeGraph.Cache
