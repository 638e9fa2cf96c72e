import Mathlib.Algebra.GroupWithZero.Nat
import CodeGraph.Cache.Memory

/-!
# The memory layer

Operations of the memory layer keep entries or drop them, and add at most the one that is stored
(`MemoryCache.mem_of_get`, `MemoryCache.mem_of_set`). They keep the cache consistent
(`MemoryCache.Consistent`): no key has two entries, and the total is the sum of the sizes. In a
consistent cache a value can be stored whenever it fits beside the others in a 64-bit word and its
time of expiry does (`MemoryCache.exists_set`).
-/

namespace CodeGraph.Cache.MemoryCache

variable {V : Type} {c c' : MemoryCache V} {key : String} {now : UInt64}

/-! ## Entries -/

theorem mem_of_find {e : MemoryEntry V} (h : c.entry? key = some e) :
    e ∈ c.entries ∧ e.key = key :=
  ⟨List.mem_of_find?_eq_some h, by simpa using List.find?_some h⟩

theorem entries_dropEntry (c : MemoryCache V) (key : String) :
    (c.dropEntry key).entries = c.entries.filter fun e => e.key != key := by
  rw [dropEntry]
  split
  · next h =>
    refine (List.filter_eq_self.2 fun e he => ?_).symm
    simpa using List.find?_eq_none.1 h e he
  · rfl

theorem mem_dropEntry {e : MemoryEntry V} :
    e ∈ (c.dropEntry key).entries ↔ e ∈ c.entries ∧ e.key ≠ key := by
  simp [entries_dropEntry]

/-- A lookup answers the value of an entry and drops entries at most. -/
theorem mem_of_get (c : MemoryCache V) (now : UInt64) (key : String) :
    (∀ v, (c.get now key).1 = some v → ∃ e ∈ c.entries, e.key = key ∧ e.value = v) ∧
      ∀ e ∈ (c.get now key).2.entries, e ∈ c.entries := by
  rw [get]
  split
  · next e he =>
    split
    · exact ⟨by simp, fun e he => (mem_dropEntry.1 he).1⟩
    · refine ⟨fun v hv => ⟨e, (mem_of_find he).1, (mem_of_find he).2, by simpa using hv⟩, ?_⟩
      intro e' he'
      rcases List.mem_cons.1 he' with rfl | he'
      · exact (mem_of_find he).1
      · exact (List.mem_filter.1 he').1
  · exact ⟨by simp, fun e he => he⟩

theorem suffix_evictOldest (c : MemoryCache V) (l : List (MemoryEntry V)) (size evictions : UInt64) :
    (c.evictOldest l size evictions).1 <:+ l := by
  induction l generalizing size evictions with
  | nil => exact List.suffix_refl _
  | cons e l ih =>
    rw [evictOldest]
    split
    · exact (ih _ _).trans (List.suffix_cons ..)
    · exact List.suffix_refl _

theorem entries_evict (c : MemoryCache V) : c.evict.entries <+: c.entries := by
  have h := suffix_evictOldest c c.entries.reverse c.currentSize c.metrics.evictions
  rw [← List.reverse_prefix, List.reverse_reverse] at h
  exact h

/-- Storing an entry adds it or not, and drops the others of its key. -/
theorem mem_of_put {e : MemoryEntry V} {stored : Bool} (h : c.put e = some (stored, c')) :
    ∀ x ∈ c'.entries, x = e ∨ x ∈ c.entries ∧ x.key ≠ e.key := by
  intro x hx
  rw [put] at h
  split at h
  · cases h
    exact .inr (mem_dropEntry.1 hx)
  · obtain ⟨size, -, heq⟩ := Option.map_eq_some_iff.1 h
    cases heq
    rcases List.mem_cons.1 ((entries_evict _).subset hx) with rfl | hx
    · exact .inl rfl
    · exact .inr (mem_dropEntry.1 hx)

/-- Storing a value adds an entry for it or not, and drops the others of its key. -/
theorem mem_of_set {v : V} {size : UInt64} {stored : Bool}
    (h : c.set now key v size = some (stored, c')) :
    ∀ e ∈ c'.entries, e.key = key ∧ e.value = v ∧ e.size = size ∨ e ∈ c.entries ∧ e.key ≠ key := by
  intro e he
  obtain ⟨expiresAt, -, h⟩ := Option.bind_eq_some_iff.1 h
  rcases mem_of_put h e he with rfl | he
  · exact .inl ⟨rfl, rfl, rfl⟩
  · exact .inr he

/-! ## The time to live -/

theorem ttl_dropEntry (c : MemoryCache V) (key : String) : (c.dropEntry key).ttl = c.ttl := by
  rw [dropEntry]
  split <;> rfl

theorem ttl_get (c : MemoryCache V) (now : UInt64) (key : String) :
    (c.get now key).2.ttl = c.ttl := by
  rw [get]
  split
  · split
    · exact ttl_dropEntry c key
    · rfl
  · rfl

theorem ttl_set {v : V} {size : UInt64} {stored : Bool}
    (h : c.set now key v size = some (stored, c')) : c'.ttl = c.ttl := by
  obtain ⟨expiresAt, -, h⟩ := Option.bind_eq_some_iff.1 h
  rw [put] at h
  split at h
  · cases h
    exact ttl_dropEntry c key
  · obtain ⟨size, -, heq⟩ := Option.map_eq_some_iff.1 h
    cases heq
    exact ttl_dropEntry c key

/-! ## Consistency -/

/-- The sizes of entries, added up. -/
def total (l : List (MemoryEntry V)) : Nat :=
  (l.map fun e => e.size.toNat).sum

theorem total_cons (e : MemoryEntry V) (l : List (MemoryEntry V)) :
    total (e :: l) = e.size.toNat + total l := by
  simp [total]

theorem total_perm {a b : List (MemoryEntry V)} (h : a.Perm b) : total a = total b :=
  (h.map _).sum_nat

/-- No key has two entries, and the total is the sum of the sizes. -/
structure Consistent (c : MemoryCache V) : Prop where
  nodup : (c.entries.map (·.key)).Nodup
  size : c.currentSize.toNat = total c.entries

theorem consistent_new (s : MemorySettings) : (new s : MemoryCache V).Consistent :=
  ⟨List.nodup_nil, rfl⟩

theorem consistent_clear (c : MemoryCache V) : c.clear.Consistent :=
  ⟨List.nodup_nil, rfl⟩

theorem toNat_lessSize {a b : UInt64} (h : b.toNat ≤ a.toNat) :
    (lessSize a b).toNat = a.toNat - b.toNat := by
  have hle : b ≤ a := UInt64.le_iff_toNat_le.2 h
  rw [lessSize, if_pos hle, UInt64.toNat_sub_of_le _ _ hle]

theorem perm_of_find? {l : List (MemoryEntry V)} {e : MemoryEntry V}
    (hnodup : (l.map (·.key)).Nodup) (h : l.find? (fun e => e.key == key) = some e) :
    l.Perm (e :: l.filter fun e => e.key != key) := by
  induction l with
  | nil => cases h
  | cons x l ih =>
    obtain ⟨hx, hnodup⟩ := List.nodup_cons.1 hnodup
    by_cases hkey : x.key = key
    · rw [List.find?_cons_of_pos (by simpa using hkey)] at h
      cases h
      have hrest : (l.filter fun e => e.key != key) = l := by
        refine List.filter_eq_self.2 fun y hy => ?_
        rw [bne_iff_ne]
        exact fun hy' => hx (List.mem_map.2 ⟨y, hy, hy'.trans hkey.symm⟩)
      rw [List.filter_cons, if_neg (by simp [hkey]), hrest]
    · rw [List.find?_cons_of_neg (by simpa using hkey)] at h
      rw [List.filter_cons, if_pos (by simpa using hkey)]
      exact ((ih hnodup h).cons x).trans (List.Perm.swap ..)

theorem nodup_filter {l : List (MemoryEntry V)} (h : (l.map (·.key)).Nodup)
    (p : MemoryEntry V → Bool) : ((l.filter p).map (·.key)).Nodup :=
  h.sublist (List.filter_sublist.map _)

theorem Consistent.dropEntry (h : c.Consistent) (key : String) :
    (c.dropEntry key).Consistent := by
  refine ⟨?_, ?_⟩
  · rw [entries_dropEntry]
    exact nodup_filter h.nodup _
  · rw [MemoryCache.dropEntry]
    split
    · exact h.size
    · next e he =>
      have hperm := total_perm (perm_of_find? h.nodup he)
      have hsize := h.size
      rw [total_cons] at hperm
      simp only
      rw [toNat_lessSize (by omega)]
      omega

theorem evictOldest_size (c : MemoryCache V) {l : List (MemoryEntry V)} {size : UInt64}
    (evictions : UInt64) (h : size.toNat = total l) :
    (c.evictOldest l size evictions).2.1.toNat = total (c.evictOldest l size evictions).1 := by
  induction l generalizing size evictions with
  | nil => exact h
  | cons e l ih =>
    rw [evictOldest]
    rw [total_cons] at h
    split
    · refine ih _ ?_
      rw [toNat_lessSize (by omega)]
      omega
    · rw [total_cons]
      exact h

theorem Consistent.evict (h : c.Consistent) : c.evict.Consistent := by
  refine ⟨h.nodup.sublist ((entries_evict c).sublist.map _), ?_⟩
  have hreverse : c.currentSize.toNat = total c.entries.reverse := by
    rw [h.size, total_perm c.entries.reverse_perm]
  have hkept := evictOldest_size c c.metrics.evictions hreverse
  rw [← total_perm (List.reverse_perm _)] at hkept
  exact hkept

theorem Consistent.get (h : c.Consistent) (now : UInt64) (key : String) :
    (c.get now key).2.Consistent := by
  rw [MemoryCache.get]
  split
  · next e he =>
    split
    · exact ⟨(h.dropEntry key).nodup, (h.dropEntry key).size⟩
    · have hperm := perm_of_find? h.nodup he
      exact ⟨(hperm.map _).nodup_iff.1 h.nodup, h.size.trans (total_perm hperm)⟩
  · exact ⟨h.nodup, h.size⟩

theorem Consistent.put (h : c.Consistent) {e : MemoryEntry V} {stored : Bool}
    (hput : c.put e = some (stored, c')) : c'.Consistent := by
  have hdrop := h.dropEntry e.key
  rw [MemoryCache.put] at hput
  split at hput
  · cases hput
    exact hdrop
  · obtain ⟨size, hsize, heq⟩ := Option.map_eq_some_iff.1 hput
    cases heq
    refine Consistent.evict ⟨?_, ?_⟩
    · refine List.nodup_cons.2 ⟨fun hmem => ?_, hdrop.nodup⟩
      obtain ⟨x, hx, hkey⟩ := List.mem_map.1 hmem
      exact (mem_dropEntry.1 hx).2 hkey
    · rw [total_cons, Amount.sum?_eq_some_iff.1 hsize, hdrop.size, Nat.add_comm]

theorem Consistent.set (h : c.Consistent) {v : V} {size : UInt64} {stored : Bool}
    (hset : c.set now key v size = some (stored, c')) : c'.Consistent := by
  obtain ⟨expiresAt, -, hput⟩ := Option.bind_eq_some_iff.1 hset
  exact h.put hput

/-- A value can be stored whose time of expiry is a 64-bit word, as is the total with it and without
the earlier value of its key. -/
theorem exists_set (h : c.Consistent) {v : V} {size : UInt64}
    (hexpiry : ∀ t, c.ttl = some t → now.toNat + t.toNat < UInt64.size)
    (hsize : total (c.entries.filter fun e => e.key != key) + size.toNat < UInt64.size) :
    ∃ stored c', c.set now key v size = some (stored, c') := by
  obtain ⟨expiresAt, hexpiresAt⟩ : ∃ expiresAt, expiryOf? now c.ttl = some expiresAt := by
    rcases httl : c.ttl with _ | t
    · exact ⟨none, rfl⟩
    · rw [expiryOf?, Amount.sum?, if_pos (hexpiry t httl)]
      exact ⟨_, rfl⟩
  rw [MemoryCache.set, setWithTtl, hexpiresAt]
  have hdrop := (h.dropEntry key).size
  rw [entries_dropEntry] at hdrop
  simp only [Option.bind_some, MemoryCache.put]
  split
  · exact ⟨_, _, rfl⟩
  · rw [Amount.sum?, if_pos (by rw [hdrop]; exact hsize)]
    exact ⟨_, _, rfl⟩

end CodeGraph.Cache.MemoryCache
