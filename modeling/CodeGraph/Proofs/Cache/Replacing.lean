import Mathlib.Algebra.Order.BigOperators.Group.List
import Mathlib.Algebra.Order.Ring.Nat
import CodeGraph.Proofs.Cache.Removing
import CodeGraph.Proofs.Cache.Index

/-!
# Storing values that displace others

Beside its content, a disk layer keeps this (`Shelf.Accounted`): each entry stands under the digest of
its key with the true size of its value, and all sizes together are a 64-bit word. A value that is
stored takes the place of the one of its key and of the oldest others, first in the index, then among
the files, and what is left stays within the budget (`Shelf.Accounted.run_set`). The only failure
without faults is a total that no 64-bit word can hold.
-/

namespace CodeGraph.Cache

namespace DiskIndex

variable {x : DiskIndex} {g g' : String → Option IndexedEntry} {bound : Nat}

/-- The entries of an index fit in its total. -/
theorem fits_weight (h : ∀ d, x.entries.get? d = g d) : Fits g x.weight := by
  have hmem : ∀ p ∈ x.entries.entries, g p.1 = some p.2 := by
    intro p hp
    rw [← h, NameMap.get?_eq_some_iff]
    exact hp
  intro l hl
  rw [weight_eq hmem]
  refine sum_le_sum_of_owners (fun d => (g d).map fun _ => d) ?_ ?_ ?_
  · refine hl.imp ?_
    intro a b hne k ha hb
    obtain ⟨-, -, rfl⟩ := Option.map_eq_some_iff.1 ha
    obtain ⟨-, -, rfl⟩ := Option.map_eq_some_iff.1 hb
    exact hne rfl
  · intro d _ hd
    rw [sizeIn, Option.map_eq_none_iff.1 hd]
    rfl
  · intro d _ k hk
    obtain ⟨e, he, rfl⟩ := Option.map_eq_some_iff.1 hk
    rw [← h, NameMap.get?_eq_some_iff] at he
    exact ⟨List.mem_map_of_mem (f := Prod.fst) he, Nat.le_refl _⟩

theorem Fits.weight_le (hfits : Fits g bound) (h : ∀ d, x.entries.get? d = g d) :
    x.weight ≤ bound := by
  have hmem : ∀ p ∈ x.entries.entries, g p.1 = some p.2 := by
    intro p hp
    rw [← h, NameMap.get?_eq_some_iff]
    exact hp
  rw [weight_eq hmem]
  exact hfits _ (NameMap.nodup_names _)

theorem Fits.mono {bound' : Nat} (h : Fits g bound) (hle : bound ≤ bound') : Fits g bound' :=
  fun l hl => Nat.le_trans (h l hl) hle

/-- Fewer entries still fit. -/
theorem Fits.fewer (h : Fits g bound) (hsome : ∀ d e, g' d = some e → g d = some e) :
    Fits g' bound := by
  intro l hl
  refine Nat.le_trans (List.sum_le_sum ?_) (h l hl)
  intro d _
  rw [sizeIn, sizeIn]
  rcases hd : g' d with _ | e
  · exact Nat.zero_le _
  · rw [hsome d e hd]

end DiskIndex

/-- What a lookup of a key answers in a content. -/
def Content.answer (m : Content) (key : String) : Option ByteArray :=
  match m (keyDigest key) with
  | some p => if p.1.key = key then some p.2 else none
  | none => none

namespace DiskCache

variable {s s₁ : DiskState} {now : UInt64} {key : String} {content : ByteArray}

theorem run_stats (hensure : ensureIndex.run.run s = (.ok (), s₁)) :
    stats.run.run s =
      (.ok ⟨s₁.cache.index.entries.size, s₁.cache.index.totalSize, s₁.cache.maxSize⟩, s₁) := by
  rw [stats, run_bind_ok hensure, run_bind_ok (run_get s₁)]
  rfl

theorem run_set_overflow (hsize : ¬ s.cache.maxSize < UInt64.ofNat content.size)
    (hensure : ensureIndex.run.run s = (.ok (), s₁))
    (hreserve : s₁.cache.index.reserve (keyDigest key)
      ⟨key, now, UInt64.ofNat content.size⟩ s₁.cache.maxSize = none) :
    ∃ s', (set now key content).run.run s = (.error .overflow, s') := by
  rw [set, run_bind_ok (run_get s)]
  simp only [if_neg hsize]
  rw [run_bind_ok hensure, run_bind_ok (run_get s₁)]
  simp only [hreserve]
  rw [run_bind_ok (DiskM.run_modifyIndex _ s₁)]
  exact ⟨_, rfl⟩

/-- Once room has been made in the index, the files of the victims go and the entry is written. -/
theorem run_set_of_reserve {victims : List (String × IndexedEntry)} {index : DiskIndex}
    (hsize : ¬ s.cache.maxSize < UInt64.ofNat content.size)
    (hensure : ensureIndex.run.run s = (.ok (), s₁))
    (hreserve : s₁.cache.index.reserve (keyDigest key)
      ⟨key, now, UInt64.ofNat content.size⟩ s₁.cache.maxSize = some (victims, index)) :
    (set now key content).run.run s =
      (do
        removeVictims victims
        tryCatch (writeEntry (keyDigest key) content
          ⟨key, now, UInt64.ofNat content.size, Sidecar.currentVersion⟩) fun e => do
            DiskM.modifyIndex (·.remove (keyDigest key))
            throw e
        return true : DiskM Bool).run.run { s₁ with cache := { s₁.cache with index } } := by
  rw [set, run_bind_ok (run_get s)]
  simp only [if_neg hsize]
  rw [run_bind_ok hensure, run_bind_ok (run_get s₁)]
  simp only [hreserve]
  rw [run_bind_ok (DiskM.run_modifyIndex _ s₁)]

end DiskCache

namespace Shelf

variable {S : Shelf} {s : DiskState} {m : Content} {d : String} {content : ByteArray}

/-- A disk layer whose entries stand under the digests of their keys with the sizes of their values,
the total of which is a 64-bit word. -/
structure Accounted (S : Shelf) (s : DiskState) (m : Content) : Prop where
  settled : S.Settled s m
  own : ∀ d p, m d = some p → keyDigest p.1.key = d ∧ p.1.size.toNat = p.2.size
  fits : DiskIndex.Fits m.indexed (UInt64.size - 1)

/-! ## The index and the files -/

/-- The index can always be made. -/
theorem Accounted.run_ensureIndex (h : S.Accounted s m) :
    ∃ s', DiskCache.ensureIndex.run.run s = (.ok (), s') ∧ S.Accounted s' m ∧
      s'.cache.seeded = true ∧ s'.drive = s.drive ∧ s'.cache.maxSize = s.cache.maxSize := by
  obtain ⟨s', hrun, hsettled, hseeded, hdrive, hmax⟩ :=
    h.settled.run_ensureIndex h.fits (by decide)
  exact ⟨s', hrun, ⟨hsettled, h.own, h.fits⟩, hseeded, hdrive, hmax⟩

theorem Filed.run_writeEntry {sc : Sidecar} (h : S.Filed s m) (hd : IsDigest d)
    (content : ByteArray) (hversion : sc.version = Sidecar.currentVersion) :
    ∃ v, (DiskCache.writeEntry d content sc).run.run s = (.ok (), { s with drive := ⟨v, []⟩ }) ∧
      S.Filed { s with drive := ⟨v, []⟩ } (m.store d (sc, content)) := by
  obtain ⟨hcache, -, hfiles, hfaults⟩ := wrote_writeEntry h.directory h.site hd content sc
  rcases hwrite : (DiskCache.writeEntry d content sc).run.run s with ⟨r, ⟨cache, ⟨v, faults⟩⟩⟩
  rw [hwrite] at hcache hfiles hfaults
  obtain ⟨rfl, rfl⟩ := hfaults h.faultless
  obtain rfl : cache = s.cache := hcache
  obtain ⟨hstocked, hfile⟩ := hfiles rfl
  refine ⟨v, rfl, h.directory, rfl, .stocked hstocked, ?_, ?_⟩
  · intro d' e hd'
    -- What the files of the content are does not depend on the index, so it may be unmade.
    have hunmade : S.Settled { s with cache := { s.cache with seeded := false } } m :=
      ⟨h.directory, h.faultless, h.site, h.file, h.entry, fun hseeded => by cases hseeded⟩
    exact (hfile d' e hd').trans (hunmade.file_store hd')
  · intro d' q hq
    rw [Content.store] at hq
    split at hq
    · next hsame =>
      cases hq
      exact ⟨hsame ▸ hd, hversion⟩
    · exact h.entry d' q hq

/-! ## Calls -/

/-- A lookup answers from the content and changes nothing. -/
theorem Settled.run_get (h : S.Settled s m) (key : String) :
    (DiskCache.get key).run.run s = (.ok (m.answer key), s) := by
  rw [Content.answer]
  rcases hp : m (keyDigest key) with _ | p
  · exact h.run_get_of_none hp
  · by_cases hkey : p.1.key = key
    · simp only [if_pos hkey]
      exact h.get_of_content hp hkey
    · simp only [if_neg hkey]
      exact h.get_of_other hp hkey

theorem Accounted.without {s' : DiskState} {ds : List String} (h : S.Accounted s m)
    (hsettled : S.Settled s' (m.without ds)) : S.Accounted s' (m.without ds) := by
  have hsome : ∀ {β : Type} (f : String → Option β) (d : String) (p : β),
      (if d ∈ ds then none else f d) = some p → f d = some p := by
    intro β f d p hp
    split at hp
    · cases hp
    · exact hp
  refine ⟨hsettled, ?_, ?_⟩
  · intro d p hp
    exact h.own d p (hsome m d p hp)
  · refine h.fits.fewer ?_
    intro d e he
    rw [Content.indexed_without] at he
    exact hsome m.indexed d e he

/-- What a value is stored with stays within the budget of the index. -/
theorem Accounted.replaced {s' : DiskState} {sc : Sidecar} {ds : List String} {maxSize : UInt64}
    (h : S.Accounted s m) (hsc : sc.size.toNat = content.size)
    (hfiled : S.Filed s' ((m.without ds).store (keyDigest sc.key) (sc, content)))
    (hexact : s'.cache.index.Exact) (hweight : s'.cache.index.weight ≤ maxSize.toNat)
    (hget : ∀ d, s'.cache.index.entries.get? d =
      ((m.without ds).store (keyDigest sc.key) (sc, content)).indexed d) :
    S.Accounted s' ((m.without ds).store (keyDigest sc.key) (sc, content)) ∧
      DiskIndex.Fits ((m.without ds).store (keyDigest sc.key) (sc, content)).indexed
        maxSize.toNat := by
  have hfits := (DiskIndex.fits_weight hget).mono hweight
  have hword := maxSize.toNat_lt
  refine ⟨⟨hfiled.settled fun _ => ⟨hexact, hget⟩, ?_, hfits.mono ?_⟩, hfits⟩
  · intro d p hp
    rw [Content.store] at hp
    split at hp
    · next hsame =>
      cases hp
      exact ⟨hsame.symm, hsc⟩
    · rw [Content.without] at hp
      split at hp
      · cases hp
      · exact h.own d p hp
  · have hsize : UInt64.size = 2 ^ 64 := rfl
    omega

/-- What is left with a value that room has been made for is what the index says. -/
theorem Accounted.run_set_reserved {s₁ : DiskState} {now : UInt64} {key : String} {sc : Sidecar}
    {victims : List (String × IndexedEntry)} {index : DiskIndex} (h₁ : S.Accounted s₁ m)
    (hensure : DiskCache.ensureIndex.run.run s = (.ok (), s₁)) (hseeded : s₁.cache.seeded = true)
    (hlength : content.size < UInt64.size)
    (hsize : ¬ s.cache.maxSize < UInt64.ofNat content.size)
    (hmax : s₁.cache.maxSize = s.cache.maxSize)
    (hsc : sc = ⟨key, now, UInt64.ofNat content.size, Sidecar.currentVersion⟩)
    (hreserve : s₁.cache.index.reserve (keyDigest key) sc.indexed s.cache.maxSize =
      some (victims, index)) :
    ∃ s', (DiskCache.set now key content).run.run s = (.ok true, s') ∧
      S.Accounted s' ((m.without (victims.map Prod.fst)).store (keyDigest key) (sc, content)) ∧
      DiskIndex.Fits ((m.without (victims.map Prod.fst)).store (keyDigest key)
        (sc, content)).indexed s.cache.maxSize.toNat ∧
      s'.cache = { s₁.cache with index } := by
  obtain ⟨hexact₁, hget₁⟩ := h₁.settled.index hseeded
  have hword : sc.size.toNat = content.size := by
    rw [hsc]
    exact UInt64.toNat_ofNat_of_lt' hlength
  have hroom : sc.indexed.size ≤ s.cache.maxSize := by
    rw [hsc]
    exact UInt64.not_lt.1 hsize
  -- The index that has been reserved is the one that `reserve_cases` tells about.
  rcases DiskIndex.reserve_cases (d := keyDigest key) hexact₁ hroom with
    ⟨-, hnone⟩ | ⟨victims', index', hsome, hexact, hweight, hvictims, hget⟩
  · rw [hreserve] at hnone
    cases hnone
  rw [hreserve] at hsome
  cases hsome
  -- The index is ahead of the files from here until the entry has been written.
  have hfiled := h₁.settled.filed index
  have hdigests : ∀ v ∈ victims, IsDigest v.1 := by
    intro v hv
    have hindexed := (hvictims v hv).2
    rw [hget₁] at hindexed
    obtain ⟨p, hp, -⟩ := Option.map_eq_some_iff.1 hindexed
    exact (h₁.settled.entry v.1 p hp).1
  obtain ⟨v₂, hremove, h₂⟩ := hfiled.run_removeVictims hdigests
  have hversion : sc.version = Sidecar.currentVersion := by rw [hsc]
  obtain ⟨v₃, hwrite, h₃⟩ := h₂.run_writeEntry (isDigest_keyDigest key) content hversion
  have hkey : sc.key = key := by rw [hsc]
  rw [← hkey] at h₃
  obtain ⟨haccounted, hfits⟩ := h₁.replaced hword h₃ hexact hweight <| by
    intro d
    rw [Settled.indexed_store, Content.indexed_without, hget, hget₁, hkey]
  rw [hkey] at haccounted hfits
  refine ⟨_, ?_, haccounted, hfits, rfl⟩
  rw [hsc] at hwrite
  rw [hsc, Sidecar.indexed, ← hmax] at hreserve
  rw [DiskCache.run_set_of_reserve hsize hensure hreserve, run_bind_ok hremove, run_bind,
    run_tryCatch, hwrite]
  rfl

/-- **A value is refused if it is larger than the budget; else it is stored, and what is left with it
stays within the budget**, unless its size and the others add up to more than a 64-bit word. -/
theorem Accounted.run_set (h : S.Accounted s m) (now : UInt64) (key : String)
    (hlength : content.size < UInt64.size) :
    (s.cache.maxSize.toNat < content.size ∧
        (DiskCache.set now key content).run.run s = (.ok false, s)) ∨
      (∃ s', (DiskCache.set now key content).run.run s = (.error .overflow, s') ∧
        ∀ bound, DiskIndex.Fits m.indexed bound → UInt64.size ≤ bound + content.size) ∨
      ∃ s' m' sc, (DiskCache.set now key content).run.run s = (.ok true, s') ∧
        S.Accounted s' m' ∧ m' (keyDigest key) = some (sc, content) ∧ sc.key = key ∧
        DiskIndex.Fits m'.indexed s.cache.maxSize.toNat ∧ s'.cache.maxSize = s.cache.maxSize ∧
        s'.cache.seeded = true ∧ ∀ d, d ≠ keyDigest key → m' d = none ∨ m' d = m d := by
  have hword : (UInt64.ofNat content.size).toNat = content.size :=
    UInt64.toNat_ofNat_of_lt' hlength
  by_cases hlarge : s.cache.maxSize < UInt64.ofNat content.size
  · left
    refine ⟨?_, DiskCache.set_refused hlarge⟩
    rw [UInt64.lt_iff_toNat_lt, hword] at hlarge
    exact hlarge
  · right
    obtain ⟨s₁, hensure, h₁, hseeded, -, hmax⟩ := h.run_ensureIndex
    obtain ⟨hexact₁, hget₁⟩ := h₁.settled.index hseeded
    rcases DiskIndex.reserve_cases (d := keyDigest key)
        (e := ⟨key, now, UInt64.ofNat content.size⟩) hexact₁ (UInt64.not_lt.1 hlarge) with
      ⟨hover, hreserve⟩ | ⟨victims, index, hreserve, -, -, -, -⟩
    · left
      obtain ⟨s', hrun⟩ := DiskCache.run_set_overflow hlarge hensure (by rw [hmax]; exact hreserve)
      refine ⟨s', hrun, ?_⟩
      intro bound hfits
      have hothers := DiskIndex.weight_remove_le s₁.cache.index (keyDigest key)
      have htotal := hfits.weight_le hget₁
      rw [hword] at hover
      omega
    · right
      obtain ⟨s', hrun, haccounted, hfits, hcache⟩ := h₁.run_set_reserved hensure hseeded hlength
        hlarge hmax rfl hreserve
      refine ⟨s', _, ⟨key, now, UInt64.ofNat content.size, Sidecar.currentVersion⟩, hrun,
        haccounted, ?_, rfl, hfits, ?_, ?_, ?_⟩
      · rw [Content.store, if_pos rfl]
      · rw [hcache]
        exact hmax
      · rw [hcache]
        exact hseeded
      · intro d hne
        rw [Content.store, if_neg hne, Content.without]
        split
        · exact .inl rfl
        · exact .inr rfl

/-- A value that fits alone is stored, whatever must go for it, unless the total is no 64-bit word. -/
theorem Accounted.exists_stored (h : S.Accounted s m) (now : UInt64) (key : String)
    (content : ByteArray) {bound : Nat} (hfits : DiskIndex.Fits m.indexed bound)
    (hword : bound + content.size < UInt64.size) (hsize : content.size ≤ s.cache.maxSize.toNat) :
    ∃ s' m' sc, (DiskCache.set now key content).run.run s = (.ok true, s') ∧ S.Accounted s' m' ∧
      m' (keyDigest key) = some (sc, content) ∧ sc.key = key ∧
      DiskIndex.Fits m'.indexed s.cache.maxSize.toNat ∧ s'.cache.maxSize = s.cache.maxSize ∧
      s'.cache.seeded = true ∧ ∀ d, d ≠ keyDigest key → m' d = none ∨ m' d = m d := by
  have hlength : content.size < UInt64.size := by omega
  rcases h.run_set now key hlength with ⟨hlarge, -⟩ | ⟨s', -, hover⟩ | hstored
  · omega
  · have hover := hover bound hfits
    omega
  · exact hstored

theorem Accounted.exists_set (h : S.Accounted s m) (now : UInt64) (key : String) {bound : Nat}
    (hfits : DiskIndex.Fits m.indexed bound) (hword : bound + content.size < UInt64.size)
    (hsize : content.size ≤ s.cache.maxSize.toNat) :
    ∃ s' m', (DiskCache.set now key content).run.run s = (.ok true, s') ∧ S.Accounted s' m' ∧
      DiskIndex.Fits m'.indexed s.cache.maxSize.toNat ∧ s'.cache.maxSize = s.cache.maxSize := by
  obtain ⟨s', m', -, hrun, haccounted, -, -, hfits', hmax, -⟩ :=
    h.exists_stored now key content hfits hword hsize
  exact ⟨s', m', hrun, haccounted, hfits', hmax⟩

end Shelf

end CodeGraph.Cache
