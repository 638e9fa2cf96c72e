import CodeGraph.Proofs.Cache.Memory

/-!
# Eviction from the memory layer

Entries are dropped from the end of the list, one by one, until both bounds hold. What is left is the
longest beginning of the list that both bounds allow (`MemoryCache.longest_evict`): neither one entry
too many is dropped nor one too few, whichever of the two bounds is the narrower one. The counter of
evictions grows by the number of dropped entries (`MemoryCache.evictions_evict`).

The loop drops from a list with the oldest entry first, so its invariant speaks of endings of that
list.
-/

namespace CodeGraph.Cache.MemoryCache

variable {V : Type} {c : MemoryCache V} {maxItems maxSize : UInt64}

/-- Entries that both bounds allow. -/
structure Allowed (maxItems maxSize : UInt64) (l : List (MemoryEntry V)) : Prop where
  items : l.length ≤ maxItems.toNat
  size : total l ≤ maxSize.toNat

/-- The longest beginning of a list that both bounds allow. -/
structure Longest (maxItems maxSize : UInt64) (l kept : List (MemoryEntry V)) : Prop where
  beginning : kept <+: l
  allowed : Allowed maxItems maxSize kept
  longest : ∀ l', l' <+: l → Allowed maxItems maxSize l' → l' <+: kept

theorem total_sublist {a b : List (MemoryEntry V)} (h : a.Sublist b) : total a ≤ total b := by
  induction h with
  | slnil => exact Nat.le_refl _
  | @cons a b e _ ih =>
    rw [total_cons]
    omega
  | @cons_cons a b e _ ih =>
    rw [total_cons, total_cons]
    omega

theorem Allowed.sublist {a b : List (MemoryEntry V)} (hb : Allowed maxItems maxSize b)
    (h : a.Sublist b) : Allowed maxItems maxSize a :=
  ⟨Nat.le_trans h.length_le hb.items, Nat.le_trans (total_sublist h) hb.size⟩

theorem Allowed.perm {a b : List (MemoryEntry V)} (hb : Allowed maxItems maxSize b)
    (h : a.Perm b) : Allowed maxItems maxSize a :=
  ⟨h.length_eq ▸ hb.items, total_perm h ▸ hb.size⟩

/-- The test of the loop fails exactly for what both bounds allow. -/
theorem allowed_iff {l : List (MemoryEntry V)} {size : UInt64} (hsize : size.toNat = total l) :
    Allowed maxItems maxSize l ↔ ¬ (maxItems.toNat < l.length ∨ maxSize < size) := by
  have hlt : maxSize < size ↔ maxSize.toNat < total l := by
    rw [UInt64.lt_iff_toNat_lt, hsize]
  rw [hlt]
  constructor
  · rintro ⟨hitems, htotal⟩
    omega
  · intro h
    exact ⟨by omega, by omega⟩

/-- Dropping from the front of a list leaves the longest ending that both bounds allow. -/
theorem longest_evictOldest (c : MemoryCache V) {l : List (MemoryEntry V)} {size : UInt64}
    (evictions : UInt64) (hsize : size.toNat = total l) :
    Allowed c.maxItems c.maxSize (c.evictOldest l size evictions).1 ∧
      ∀ l', l' <:+ l → Allowed c.maxItems c.maxSize l' →
        l' <:+ (c.evictOldest l size evictions).1 := by
  induction l generalizing size evictions with
  | nil =>
    have hnone : Allowed c.maxItems c.maxSize ([] : List (MemoryEntry V)) :=
      ⟨Nat.zero_le _, Nat.zero_le _⟩
    exact ⟨hnone, fun l' h _ => h⟩
  | cons e newer ih =>
    have htotal := hsize
    rw [total_cons] at htotal
    have hallowed : Allowed c.maxItems c.maxSize (e :: newer) ↔ _ := allowed_iff hsize
    rw [evictOldest]
    by_cases hover : c.maxItems.toNat < newer.length + 1 ∨ c.maxSize < size
    · rw [if_pos hover]
      have hrest : (lessSize size e.size).toNat = total newer := by
        rw [toNat_lessSize (by omega)]
        omega
      obtain ⟨hkept, hlongest⟩ := ih (evictions + 1) hrest
      refine ⟨hkept, ?_⟩
      intro l' hl' hin
      rcases List.suffix_cons_iff.1 hl' with rfl | hl'
      · exact absurd hover (hallowed.1 hin)
      · exact hlongest l' hl' hin
    · rw [if_neg hover]
      exact ⟨hallowed.2 hover, fun l' hl' _ => hl'⟩

theorem evictions_evictOldest (c : MemoryCache V) (l : List (MemoryEntry V))
    (size evictions : UInt64) :
    (c.evictOldest l size evictions).2.2 =
      evictions + UInt64.ofNat (l.length - (c.evictOldest l size evictions).1.length) := by
  induction l generalizing size evictions with
  | nil => simp [evictOldest]
  | cons e newer ih =>
    rw [evictOldest]
    by_cases hover : c.maxItems.toNat < newer.length + 1 ∨ c.maxSize < size
    · rw [if_pos hover, ih]
      have hle := (suffix_evictOldest c newer (lessSize size e.size) (evictions + 1)).length_le
      have hcount : (e :: newer).length -
          (c.evictOldest newer (lessSize size e.size) (evictions + 1)).1.length =
          1 + (newer.length -
            (c.evictOldest newer (lessSize size e.size) (evictions + 1)).1.length) := by
        rw [List.length_cons]
        omega
      rw [hcount, UInt64.ofNat_add, ← UInt64.add_assoc]
      rfl
    · rw [if_neg hover]
      simp

section Evict

variable (hsize : c.currentSize.toNat = total c.entries)

include hsize

/-- What is left is the longest beginning that both bounds allow. -/
theorem longest_evict : Longest c.maxItems c.maxSize c.entries c.evict.entries := by
  have hreverse : c.currentSize.toNat = total c.entries.reverse := by
    rw [hsize, total_perm c.entries.reverse_perm]
  obtain ⟨hkept, hlongest⟩ := longest_evictOldest c c.metrics.evictions hreverse
  refine ⟨entries_evict c, hkept.perm (List.reverse_perm _), ?_⟩
  intro l' hl' hin
  have hback := hlongest l'.reverse (List.reverse_suffix.2 hl')
    (hin.perm (List.reverse_perm _))
  rw [← List.reverse_prefix, List.reverse_reverse] at hback
  exact hback

end Evict

theorem evictions_evict (c : MemoryCache V) :
    c.evict.metrics.evictions =
      c.metrics.evictions + UInt64.ofNat (c.entries.length - c.evict.entries.length) := by
  have hcount := evictions_evictOldest c c.entries.reverse c.currentSize c.metrics.evictions
  have hlength : c.evict.entries.length =
      (c.evictOldest c.entries.reverse c.currentSize c.metrics.evictions).1.length :=
    List.length_reverse
  have hreverse : c.entries.reverse.length = c.entries.length := List.length_reverse
  rw [hlength, ← hreverse]
  exact hcount

/-- A list that begins with an entry which fits alone is not emptied if there may be entries. -/
theorem Longest.head_mem {l kept : List (MemoryEntry V)} {e : MemoryEntry V}
    (h : Longest maxItems maxSize (e :: l) kept) (hitems : 1 ≤ maxItems)
    (hfits : e.size ≤ maxSize) : e ∈ kept := by
  have halone : Allowed maxItems maxSize [e] := by
    have htotal : total [e] = e.size.toNat := by simp [total]
    refine ⟨UInt64.le_iff_toNat_le.1 hitems, ?_⟩
    rw [htotal]
    exact UInt64.le_iff_toNat_le.1 hfits
  have hbegin : [e] <+: kept := h.longest [e] ⟨l, rfl⟩ halone
  exact hbegin.subset (List.mem_singleton_self e)

end CodeGraph.Cache.MemoryCache
