import CodeGraph.Proofs.Cache.Memory.Runs

/-!
# The order of the memory layer

An entry is used when a store puts it in and when a lookup answers it, by nothing else. The entries
always stand in the order of their last use, the latest first: their keys are a part, in order, of the
keys of the history by last use (`MemoryCache.sublist_recency`). A store therefore drops those used
longest ago, and exactly as many as the bounds demand (`MemoryCache.accepted_keeps_longest`).
-/

namespace CodeGraph.Cache

namespace MemoryEvent

variable {V : Type}

/-- The key whose entry an event uses. -/
def used? (ev : MemoryEvent V) : Option String :=
  match ev.call, ev.answer with
  | .set key _ _, .stored true => some key
  | .setWithTtl o, .stored true => some o.key
  | .get key, .found (some _) => some key
  | _, _ => none

/-- The keys that have been used, each once, the one used last first. -/
def recency : List (MemoryEvent V) → List String
  | [] => []
  | ev :: h =>
    match ev.used? with
    | some key => key :: (recency h).filter (· != key)
    | none => recency h

theorem recency_of_used {ev : MemoryEvent V} {key : String} (hused : ev.used? = some key)
    (h : List (MemoryEvent V)) :
    recency (ev :: h) = key :: (recency h).filter (· != key) := by
  rw [recency, hused]

theorem recency_of_not_used {ev : MemoryEvent V} (hused : ev.used? = none)
    (h : List (MemoryEvent V)) : recency (ev :: h) = recency h := by
  rw [recency, hused]

theorem used?_of_accepted {ev : MemoryEvent V} {configured : Option UInt64} {o : Offer V}
    (ho : ev.call.offer? configured = some o) (hanswer : ev.answer = .stored true) :
    ev.used? = some o.key := by
  obtain ⟨time, call, answer⟩ := ev
  cases hanswer
  cases call <;> cases ho <;> rfl

theorem used?_eq_none {ev : MemoryEvent V} (hstored : ev.answer ≠ .stored true)
    (hfound : ∀ v, ev.answer ≠ .found (some v)) : ev.used? = none := by
  unfold used?
  split
  · next h => exact absurd h hstored
  · next h => exact absurd h hstored
  · next v _ h => exact absurd h (hfound _)
  · rfl

end MemoryEvent

namespace MemoryCache

open MemoryEvent (recency recency_of_used recency_of_not_used)

variable {V : Type} {settings : MemorySettings} {c c' : MemoryCache V}
  {h : List (MemoryEvent V)} {now : UInt64} {call : MemoryCall V} {ev : MemoryEvent V}

/-- The keys of the entries without one of them. -/
theorem map_key_filter (l : List (MemoryEntry V)) (key : String) :
    (l.filter fun e => e.key != key).map (·.key) = (l.map (·.key)).filter (· != key) := by
  rw [List.filter_map]
  rfl

theorem Performed.sublist_recency (hstep : Performed c c' ev)
    (horder : (c.entries.map (·.key)).Sublist (recency h)) :
    (c'.entries.map (·.key)).Sublist (recency (ev :: h)) := by
  cases hstep with
  | @accepted o expiresAt ho hanswer _ _ hkept _ =>
    rw [recency_of_used (MemoryEvent.used?_of_accepted ho hanswer)]
    have hkeys := hkept.beginning.sublist.map (·.key)
    rw [List.map_cons, map_key_filter] at hkeys
    exact hkeys.trans ((horder.filter _).cons_cons _)
  | @hit e hcall hanswer _ hentries _ =>
    have hused : ev.used? = some e.key := by
      rw [MemoryEvent.used?, hcall, hanswer]
    rw [recency_of_used hused, hentries, List.map_cons, map_key_filter]
    exact (horder.filter _).cons_cons _
  | dropped hstored hfound hsub _ _ =>
    rw [recency_of_not_used (MemoryEvent.used?_eq_none hstored hfound)]
    exact (hsub.map _).trans horder

/-- In every run, the entries stand in the order of their last use. -/
theorem sublist_recency (hreach : Reaches (new settings) h c) :
    (c.entries.map (·.key)).Sublist (recency h) := by
  induction hreach with
  | start => exact List.Sublist.refl _
  | call hreach hrun ih =>
    have hstep := performed_of_perform (bounded_of_reaches hreach).consistent hrun
    exact hstep.sublist_recency ih

/-! ## The counter of evictions -/

/-- What has been evicted and what is stored was stored by different events of the history. -/
def Counted (h : List (MemoryEvent V)) (c : MemoryCache V) : Prop :=
  ∃ n, c.metrics.evictions = UInt64.ofNat n ∧ n + c.entries.length ≤ h.length

theorem Performed.counted (hc : c.Consistent) (hstep : Performed c c' ev) (hcount : Counted h c) :
    Counted (ev :: h) c' := by
  obtain ⟨n, hn, hle⟩ := hcount
  cases hstep with
  | @accepted o expiresAt _ _ _ _ hkept hevictions =>
    have hothers := List.length_filter_le (fun e => e.key != o.key) c.entries
    have hcut := hkept.beginning.length_le
    rw [List.length_cons] at hevictions hcut
    rw [hn, ← UInt64.ofNat_add] at hevictions
    refine ⟨_, hevictions, ?_⟩
    rw [List.length_cons]
    omega
  | hit _ _ hentry hentries hevictions =>
    have hlength := (perm_of_find? hc.nodup hentry).length_eq
    rw [← hentries] at hlength
    refine ⟨n, hevictions.trans hn, ?_⟩
    rw [List.length_cons]
    omega
  | dropped _ _ hsub _ hevictions =>
    have hlength := hsub.length_le
    refine ⟨n, hevictions.trans hn, ?_⟩
    rw [List.length_cons]
    omega

theorem counted_of_reaches (hreach : Reaches (new settings) h c) : Counted h c := by
  induction hreach with
  | start => exact ⟨0, rfl, Nat.le_refl _⟩
  | call hreach hrun ih =>
    have hconsistent := (bounded_of_reaches hreach).consistent
    exact (performed_of_perform hconsistent hrun).counted hconsistent ih

/-- The counter does not go round as long as there are fewer calls than 64-bit words. -/
theorem Counted.toNat_add (hcount : Counted h c) {cut : Nat} (hcut : cut ≤ c.entries.length + 1)
    (hshort : h.length + 1 < UInt64.size) :
    (c.metrics.evictions + UInt64.ofNat cut).toNat = c.metrics.evictions.toNat + cut := by
  obtain ⟨n, hn, hle⟩ := hcount
  have hsize : UInt64.size = 2 ^ 64 := rfl
  have hold : (UInt64.ofNat n).toNat = n := UInt64.toNat_ofNat_of_lt (by omega)
  have hnew : (UInt64.ofNat (n + cut)).toNat = n + cut := UInt64.toNat_ofNat_of_lt (by omega)
  rw [hn, ← UInt64.ofNat_add, hold, hnew]

/-! ## Storing -/

/-- **An accepted store keeps the longest beginning that both bounds allow** of the new entry and the
others in the order of their last use. The counter of evictions grows by the number of entries that
are cut off, exactly as long as it can count the calls. If there may be entries at all, the new one
is kept. -/
theorem accepted_keeps_longest (hreach : Reaches (new settings) h c) {o : Offer V}
    (hoffer : call.offer? settings.ttl = some o)
    (hset : c.perform now call = some (.stored true, c')) :
    (c.entries.map (·.key)).Sublist (recency h) ∧
      ∃ expiresAt l cut, expiryOf? now o.ttl = some expiresAt ∧
        l = o.entry expiresAt :: c.entries.filter (fun e => e.key != o.key) ∧
        Longest settings.maxItems settings.maxSize l c'.entries ∧
        l.length = c'.entries.length + cut ∧
        c'.metrics.evictions = c.metrics.evictions + UInt64.ofNat cut ∧
        (h.length + 1 < UInt64.size →
          c'.metrics.evictions.toNat = c.metrics.evictions.toNat + cut) ∧
        (1 ≤ settings.maxItems → o.entry expiresAt ∈ c'.entries) := by
  have hc := bounded_of_reaches hreach
  refine ⟨sublist_recency hreach, ?_⟩
  cases performed_of_perform hc.consistent hset with
  | hit _ hanswer _ _ _ => cases hanswer
  | dropped hstored _ _ _ _ => exact absurd rfl hstored
  | @accepted o' expiresAt ho _ hfits hexpiry hkept hevictions =>
    obtain rfl : o' = o := by
      have hsame := ho.symm.trans (hc.ttl ▸ hoffer)
      exact Option.some.inj hsame
    rw [hc.maxSize] at hfits
    rw [hc.maxItems, hc.maxSize] at hkept
    have hcut := hkept.beginning.length_le
    refine ⟨expiresAt, _, _, hexpiry, rfl, hkept, (Nat.add_sub_of_le hcut).symm, hevictions, ?_,
      fun hitems => hkept.head_mem hitems hfits⟩
    intro hshort
    have hothers := List.length_filter_le (fun e => e.key != o'.key) c.entries
    rw [hevictions]
    refine (counted_of_reaches hreach).toNat_add ?_ hshort
    rw [List.length_cons]
    omega

/-- A value of six bytes is stored beside two of four, of which the one answered since stays; asking
whether the other one is there has not kept it. -/
theorem accepted_keeps_longest_six : ∃ (h : List (MemoryEvent Nat)) (c c' : MemoryCache Nat),
    Reaches (new ⟨10, 3, none⟩) h c ∧ recency h = ["a", "b"] ∧
      c.perform 5 (.set "c" 3 6) = some (.stored true, c') ∧
      Longest 3 10 [⟨"c", 3, 6, none⟩, ⟨"a", 1, 4, none⟩, ⟨"b", 2, 4, none⟩] c'.entries ∧
      c'.entries.map (·.key) = ["c", "a"] ∧
      c'.metrics.evictions.toNat = c.metrics.evictions.toNat + 1 := by
  have hone := Reaches.start.call
    (show (new ⟨10, 3, none⟩ : MemoryCache Nat).perform 1 (.set "a" 1 4) = some (_, _) from rfl)
  have htwo := hone.call (show perform _ 2 (.set "b" 2 4) = some (_, _) from rfl)
  have hhit := htwo.call (show perform _ 3 (.get "a") = some (_, _) from rfl)
  have hseen := hhit.call (show perform _ 4 (.contains "b") = some (_, _) from rfl)
  obtain ⟨-, expiresAt, l, cut, hexpiry, rfl, hkept, hlength, -, hcount, -⟩ :=
    accepted_keeps_longest hseen rfl
      (show perform _ 5 (.set "c" 3 6) = some (.stored true, _) from rfl)
  cases hexpiry
  have hcut : cut = 1 := by
    have hthree : 3 = 2 + cut := hlength
    omega
  subst hcut
  exact ⟨_, _, _, hseen, rfl, rfl, hkept, rfl, hcount (by decide)⟩

end MemoryCache

end CodeGraph.Cache
