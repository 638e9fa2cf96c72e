import Mathlib.Algebra.GroupWithZero.Nat
import CodeGraph.Cache.DiskIndex
import CodeGraph.Proofs.NameMap

/-!
# The index of the disk layer

Making room only drops entries (`DiskIndex.mem_of_makeRoom`), and reserving adds the one that is
asked for and no other (`DiskIndex.mem_of_reserve`). As long as the total is the sum of the sizes
(`DiskIndex.Exact`) an entry can be added that keeps it a 64-bit word
(`DiskIndex.Exact.exists_insert`), and nothing is dropped for one that fits
(`DiskIndex.reserve_of_fits`).

For another entry the oldest ones are dropped until it fits. There are always enough to drop for an
entry that fits alone, so reserving fails for one reason only: the sizes of the others and of the new
entry add up to more than a 64-bit word can hold, before anything is dropped
(`DiskIndex.reserve_cases`).
-/

namespace CodeGraph.Cache

namespace AgeSet

variable {s t : AgeSet}

theorem nodup_ages (s : AgeSet) : s.ages.Nodup := by
  refine s.sorted.imp ?_
  rintro a _ holder rfl
  exact a.not_older_self holder

theorem ext_mem (h : ∀ a, a ∈ s.ages ↔ a ∈ t.ages) : s = t := by
  have hperm : s.ages.Perm t.ages :=
    (List.perm_ext_iff_of_nodup s.nodup_ages t.nodup_ages).2 h
  have heq : s.ages = t.ages := hperm.eq_of_pairwise
    (fun a b _ _ hab hba => absurd (hab.trans hba) a.not_older_self) s.sorted t.sorted
  cases s
  cases t
  cases heq
  rfl

end AgeSet

namespace DiskIndex

variable {x x' : DiskIndex} {d : String} {e : IndexedEntry}

/-! ## Entries -/

/-- The ages are told by the entries. -/
theorem ext_entries (hentries : x.entries = x'.entries) (htotal : x.totalSize = x'.totalSize) :
    x = x' := by
  have hages : x.byAge = x'.byAge := AgeSet.ext_mem fun a => by rw [x.inStep, x'.inStep, hentries]
  cases x
  cases x'
  cases hentries
  cases hages
  cases htotal
  rfl

theorem remove_of_missing (h : x.entries.get? d = none) : x.remove d = x := by
  rw [remove]
  split
  · rfl
  · next hget =>
    rw [h] at hget
    cases hget

theorem entries_insert (h : x.insert d e = some x') :
    x'.entries = (x.entries.erase d).insert d e := by
  obtain ⟨total, -, rfl⟩ := Option.map_eq_some_iff.1 h
  rw [← entries_remove]

theorem mem_of_remove {p : String × IndexedEntry} (h : p ∈ (x.remove d).entries.entries) :
    p ∈ x.entries.entries := by
  rw [entries_remove] at h
  exact (NameMap.mem_erase.1 h).1

theorem mem_of_insert {p : String × IndexedEntry} (h : x.insert d e = some x')
    (hp : p ∈ x'.entries.entries) : p = (d, e) ∨ p ∈ x.entries.entries := by
  rw [entries_insert h] at hp
  rcases NameMap.fst_mem_place hp with hname | hp
  · left
    have hget := NameMap.get?_eq_some_iff.2 hp
    rw [hname, NameMap.get?_insert_self] at hget
    cases hget
    rw [← hname]
  · exact .inr (NameMap.mem_erase.1 hp).1

theorem mem_of_makeRoom {size maxSize : UInt64} {p : String × IndexedEntry} :
    (p ∈ (makeRoom size maxSize x).1 → p ∈ x.entries.entries) ∧
      (p ∈ (makeRoom size maxSize x).2.entries.entries → p ∈ x.entries.entries) := by
  fun_induction makeRoom size maxSize x with
  | case1 => simp
  | case2 => simp
  | case3 x _ v hold victims y hroom ih =>
    rw [hroom] at ih
    obtain ⟨hvictims, hkept⟩ := ih
    refine ⟨fun h => ?_, fun h => mem_of_remove (hkept h)⟩
    rcases List.mem_cons.1 h with rfl | h
    · exact NameMap.get?_eq_some_iff.1 (get?_of_oldest? hold)
    · exact mem_of_remove (hvictims h)

/-- Reserving drops entries that were there and adds the one that is asked for. -/
theorem mem_of_reserve {maxSize : UInt64} {victims : List (String × IndexedEntry)}
    (h : x.reserve d e maxSize = some (victims, x')) {p : String × IndexedEntry} :
    (p ∈ victims → p ∈ x.entries.entries) ∧
      (p ∈ x'.entries.entries → p = (d, e) ∨ p ∈ x.entries.entries) := by
  obtain ⟨_, -, h⟩ := Option.bind_eq_some_iff.1 h
  obtain ⟨y, hinsert, heq⟩ := Option.map_eq_some_iff.1 h
  obtain ⟨rfl, rfl⟩ := Prod.mk.injEq .. ▸ heq
  refine ⟨fun hp => mem_of_remove (mem_of_makeRoom.1 hp), fun hp => ?_⟩
  rcases mem_of_insert hinsert hp with rfl | hp
  · exact .inl rfl
  · exact .inr (mem_of_remove (mem_of_makeRoom.2 hp))

theorem mem_of_ofList? {l : List (String × IndexedEntry)} (h : ofList? l = some x)
    {p : String × IndexedEntry} (hp : p ∈ x.entries.entries) : p ∈ l := by
  have hfold : ∀ (l : List (String × IndexedEntry)) (y : DiskIndex),
      l.foldlM (fun x e => x.insert e.1 e.2) y = some x → p ∈ y.entries.entries ∨ p ∈ l := by
    intro l
    induction l with
    | nil =>
      intro y h
      obtain rfl : y = x := by simpa using h
      exact .inl hp
    | cons q l ih =>
      intro y h
      rw [List.foldlM_cons] at h
      obtain ⟨z, hinsert, h⟩ := Option.bind_eq_some_iff.1 h
      rcases ih z h with hz | hmem
      · rcases mem_of_insert hinsert hz with rfl | hy
        · exact .inr (List.mem_cons_self ..)
        · exact .inl hy
      · exact .inr (List.mem_cons_of_mem _ hmem)
  rcases hfold l {} h with h | h
  · cases h
  · exact h

/-! ## Totals -/

/-- The sizes of the entries, added up. -/
def weight (x : DiskIndex) : Nat :=
  (x.entries.entries.map fun p => p.2.size.toNat).sum

/-- The total is the sum of the sizes. -/
def Exact (x : DiskIndex) : Prop :=
  x.totalSize.toNat = x.weight

theorem exact_empty : ({} : DiskIndex).Exact := rfl

theorem weight_erase (h : x.entries.get? d = some e) :
    x.weight = e.size.toNat + ((x.entries.erase d).entries.map fun p => p.2.size.toNat).sum := by
  rw [weight, ((NameMap.perm_erase h).map _).sum_nat, List.map_cons, List.sum_cons]

theorem weight_remove (x : DiskIndex) (d : String) :
    (x.remove d).weight = ((x.entries.erase d).entries.map fun p => p.2.size.toNat).sum := by
  rw [weight, entries_remove]

theorem Exact.remove (h : x.Exact) (d : String) : (x.remove d).Exact := by
  rw [Exact, weight_remove, DiskIndex.remove]
  split
  · next hget =>
    have hsame : (x.entries.erase d).entries = x.entries.entries :=
      List.filter_eq_self.2 (by simpa using NameMap.get?_eq_none_iff.1 hget)
    rw [hsame]
    exact h
  · next e hget =>
    have hweight := weight_erase hget
    have hexact : x.totalSize.toNat = x.weight := h
    have hle : e.size ≤ x.totalSize := UInt64.le_iff_toNat_le.2 (by omega)
    simp only
    rw [UInt64.toNat_sub_of_le _ _ hle]
    omega

/-- Adding an entry puts it in the place of the one of its digest. -/
theorem get?_insert (h : x.insert d e = some x') (d' : String) :
    x'.entries.get? d' = if d' = d then some e else x.entries.get? d' := by
  rw [entries_insert h, NameMap.get?_insert, NameMap.get?_erase]
  split <;> rfl

theorem insert_spec (h : x.Exact) (hinsert : x.insert d e = some x') :
    x'.Exact ∧ x'.weight = e.size.toNat + (x.remove d).weight ∧
      ∀ d', x'.entries.get? d' = if d' = d then some e else x.entries.get? d' := by
  have hnone : (x.entries.erase d).get? d = none := by rw [NameMap.get?_erase, if_pos rfl]
  have hweight : x'.weight = e.size.toNat + (x.remove d).weight := by
    rw [weight, entries_insert hinsert, ((NameMap.perm_insert hnone).map _).sum_nat, weight_remove,
      List.map_cons, List.sum_cons]
  refine ⟨?_, hweight, get?_insert hinsert⟩
  obtain ⟨total, htotal, rfl⟩ := Option.map_eq_some_iff.1 hinsert
  have hsum := Amount.sum?_eq_some_iff.1 htotal
  have hremoved : (x.remove d).totalSize.toNat = (x.remove d).weight := h.remove d
  rw [Exact, hweight]
  change total.toNat = _
  omega

/-- An entry can be added if the total stays a 64-bit word. -/
theorem Exact.exists_insert (h : x.Exact) (hfits : (x.remove d).weight + e.size.toNat < UInt64.size) :
    ∃ x', x.insert d e = some x' := by
  have hremoved : (x.remove d).totalSize.toNat = (x.remove d).weight := h.remove d
  rw [DiskIndex.insert, Amount.sum?, if_pos (by rw [hremoved]; exact hfits)]
  exact ⟨_, rfl⟩

/-- Nothing is dropped for an entry that fits. -/
theorem reserve_of_fits (h : x.Exact) {maxSize : UInt64}
    (hfits : (x.remove d).weight + e.size.toNat ≤ maxSize.toNat) :
    ∃ x', x.reserve d e maxSize = some ([], x') ∧ x'.Exact ∧
      ∀ d', x'.entries.get? d' = if d' = d then some e else x.entries.get? d' := by
  have hsize : (x.remove d).weight + e.size.toNat < UInt64.size :=
    Nat.lt_of_le_of_lt hfits maxSize.toNat_lt
  have hexact : (x.remove d).Exact := h.remove d
  have hremoved : (x.remove d).totalSize.toNat = (x.remove d).weight := hexact
  have hsum : (x.remove d).totalSize.toNat + e.size.toNat < UInt64.size := by
    rw [hremoved]
    exact hsize
  have hroom : makeRoom e.size maxSize (x.remove d) = ([], x.remove d) := by
    have hle : (x.remove d).totalSize + e.size ≤ maxSize := by
      rw [UInt64.le_iff_toNat_le, UInt64.toNat_add, Nat.mod_eq_of_lt hsum, hremoved]
      exact hfits
    rw [makeRoom, if_pos hle]
  -- The entry is removed once for the room and once more by `insert`.
  have htwice : ((x.remove d).remove d).weight = (x.remove d).weight := by
    rw [weight_remove, weight, entries_remove]
    congr 2
    exact List.filter_eq_self.2 fun p hp => (List.mem_filter.1 hp).2
  obtain ⟨x', hinsert⟩ := hexact.exists_insert (d := d) (e := e) (by rwa [htwice])
  obtain ⟨hexact', -, hget⟩ := insert_spec hexact hinsert
  refine ⟨x', ?_, hexact', fun d' => ?_⟩
  · rw [reserve]
    simp only [Amount.sum?, if_pos hsum, Option.bind_some, hroom, hinsert, Option.map_some]
  · rw [hget, get?_remove]
    split <;> rfl

/-! ## Indexes of a known content -/

/-- The size of the entry of a digest. -/
def sizeIn (g : String → Option IndexedEntry) (d : String) : Nat :=
  ((g d).map fun e => e.size.toNat).getD 0

/-- All entries together fit. -/
def Fits (g : String → Option IndexedEntry) (bound : Nat) : Prop :=
  ∀ l : List String, l.Nodup → (l.map (sizeIn g)).sum ≤ bound

theorem weight_eq {g : String → Option IndexedEntry}
    (h : ∀ p ∈ x.entries.entries, g p.1 = some p.2) :
    x.weight = ((x.entries.entries.map Prod.fst).map (sizeIn g)).sum := by
  rw [weight, List.map_map]
  congr 1
  refine List.map_congr_left fun p hp => ?_
  rw [Function.comp_apply, sizeIn, h p hp]
  rfl

/-- Beside the entries of a content that fits there is room for one more of it. -/
theorem Fits.room {g : String → Option IndexedEntry} {bound : Nat} (hfits : Fits g bound)
    (hg : g d = some e) (h : ∀ p ∈ (x.remove d).entries.entries, g p.1 = some p.2) :
    (x.remove d).weight + e.size.toNat ≤ bound := by
  have hnodup : (d :: (x.remove d).entries.entries.map Prod.fst).Nodup := by
    refine List.nodup_cons.2 ⟨fun hmem => ?_, NameMap.nodup_names _⟩
    obtain ⟨p, hp, hname⟩ := List.mem_map.1 hmem
    rw [entries_remove] at hp
    exact (NameMap.mem_erase.1 hp).2 hname
  have hsum := hfits _ hnodup
  have hsize : sizeIn g d = e.size.toNat := by rw [sizeIn, hg]; rfl
  rw [List.map_cons, List.sum_cons, ← weight_eq h, hsize] at hsum
  omega

/-- The entries of a content that fits can be added to an index of some of them. -/
theorem exists_insertAll {g : String → Option IndexedEntry} {bound : Nat} (hfits : Fits g bound)
    (hbound : bound < UInt64.size) {l : List (String × IndexedEntry)}
    (hl : ∀ p ∈ l, g p.1 = some p.2) (hx : x.Exact)
    (hin : ∀ p ∈ x.entries.entries, g p.1 = some p.2) :
    ∃ y, l.foldlM (fun x e => x.insert e.1 e.2) x = some y ∧ y.Exact ∧
      ∀ d, y.entries.get? d = if d ∈ l.map Prod.fst then g d else x.entries.get? d := by
  induction l generalizing x with
  | nil => exact ⟨x, rfl, hx, fun d => by simp⟩
  | cons p l ih =>
    have hp := hl p (List.mem_cons_self ..)
    have hroom := hfits.room (x := x) hp fun q hq => hin q (mem_of_remove hq)
    obtain ⟨z, hinsert⟩ := hx.exists_insert (Nat.lt_of_le_of_lt hroom hbound)
    obtain ⟨hz, -, hget⟩ := insert_spec hx hinsert
    obtain ⟨y, hy, hexact, hget'⟩ := ih (fun q hq => hl q (List.mem_cons_of_mem _ hq)) hz
      fun q hq => by
        rcases mem_of_insert hinsert hq with rfl | hq
        · exact hp
        · exact hin q hq
    refine ⟨y, ?_, hexact, fun d => ?_⟩
    · rw [List.foldlM_cons, hinsert]
      exact hy
    · rw [hget', hget, List.map_cons]
      by_cases hname : d = p.1
      · simp [hname, hp]
      · simp only [List.mem_cons, hname, false_or, if_false]

/-- A list of all entries of a content that fits is made an index of it. -/
theorem exists_ofList? {g : String → Option IndexedEntry} {bound : Nat} (hfits : Fits g bound)
    (hbound : bound < UInt64.size) {l : List (String × IndexedEntry)}
    (hl : ∀ p, p ∈ l ↔ g p.1 = some p.2) :
    ∃ x, ofList? l = some x ∧ x.Exact ∧ ∀ d, x.entries.get? d = g d := by
  obtain ⟨x, hx, hexact, hget⟩ :=
    exists_insertAll hfits hbound (fun p hp => (hl p).1 hp) exact_empty fun _ hp => nomatch hp
  refine ⟨x, hx, hexact, fun d => ?_⟩
  rw [hget]
  split
  · rfl
  · next hnot =>
    rcases hd : g d with _ | e
    · rfl
    · exact absurd (List.mem_map_of_mem (f := Prod.fst) ((hl (d, e)).2 hd)) hnot

/-! ## Making room -/

section Room

variable {y : DiskIndex} {size maxSize : UInt64} {victims : List (String × IndexedEntry)}

/-- An index without some of the entries of another one. -/
structure Without (x y : DiskIndex) (victims : List (String × IndexedEntry)) : Prop where
  get? : ∀ d, y.entries.get? d = if d ∈ victims.map Prod.fst then none else x.entries.get? d
  were : ∀ v ∈ victims, x.entries.get? v.1 = some v.2
  nodup : (victims.map Prod.fst).Nodup

theorem Without.refl (x : DiskIndex) : Without x x [] :=
  ⟨fun _ => by simp, fun _ hv => (by cases hv), List.nodup_nil⟩

theorem Without.cons {v : String × IndexedEntry} (hv : x.entries.get? v.1 = some v.2)
    (h : Without (x.remove v.1) y victims) : Without x y (v :: victims) := by
  have hothers : ∀ w ∈ victims, w.1 ≠ v.1 ∧ x.entries.get? w.1 = some w.2 := by
    intro w hw
    have hthere := h.were w hw
    rw [get?_remove] at hthere
    split at hthere
    · cases hthere
    · next hne => exact ⟨hne, hthere⟩
  refine ⟨?_, ?_, ?_⟩
  · intro d
    rw [h.get?, get?_remove, List.map_cons]
    by_cases hd : d = v.1
    · simp [hd]
    · rw [if_neg hd]
      simp only [List.mem_cons, hd, false_or]
  · intro w hw
    rcases List.mem_cons.1 hw with rfl | hw
    · exact hv
    · exact (hothers w hw).2
  · rw [List.map_cons, List.nodup_cons]
    refine ⟨fun hmem => ?_, h.nodup⟩
    obtain ⟨w, hw, hname⟩ := List.mem_map.1 hmem
    exact (hothers w hw).1 hname

theorem without_makeRoom (size maxSize : UInt64) (x : DiskIndex) :
    Without x (makeRoom size maxSize x).2 (makeRoom size maxSize x).1 := by
  fun_induction makeRoom size maxSize x with
  | case1 x => exact .refl x
  | case2 x => exact .refl x
  | case3 x _ v hold victims y hroom ih =>
    rw [hroom] at ih
    exact .cons (get?_of_oldest? hold) ih

theorem Exact.makeRoom (h : x.Exact) (size maxSize : UInt64) :
    (makeRoom size maxSize x).2.Exact := by
  fun_induction DiskIndex.makeRoom size maxSize x with
  | case1 => exact h
  | case2 => exact h
  | case3 x _ v hold victims y hroom ih =>
    rw [hroom] at ih
    exact ih (h.remove v.1)

/-- What room is made in holds the new entry in the place of the one of its digest and of the dropped
ones, which were other entries. -/
theorem reserve_spec (h : x.reserve d e maxSize = some (victims, y)) :
    (∀ v ∈ victims, v.1 ≠ d ∧ x.entries.get? v.1 = some v.2) ∧ (victims.map Prod.fst).Nodup ∧
      ∀ d', y.entries.get? d' =
        if d' = d then some e
        else if d' ∈ victims.map Prod.fst then none else x.entries.get? d' := by
  obtain ⟨_, -, h⟩ := Option.bind_eq_some_iff.1 h
  obtain ⟨z, hinsert, heq⟩ := Option.map_eq_some_iff.1 h
  obtain ⟨rfl, rfl⟩ := Prod.mk.injEq .. ▸ heq
  have hroom : Without (x.remove d) _
      (makeRoom e.size maxSize (x.remove d)).1 := without_makeRoom _ _ _
  refine ⟨?_, hroom.nodup, ?_⟩
  · intro v hv
    have hthere := hroom.were v hv
    rw [get?_remove] at hthere
    split at hthere
    · cases hthere
    · next hne => exact ⟨hne, hthere⟩
  · intro d'
    rw [get?_insert hinsert, hroom.get?, get?_remove]
    by_cases hd : d' = d
    · rw [if_pos hd, if_pos hd]
    · rw [if_neg hd, if_neg hd, if_neg hd]

/-- Only an index without entries has no oldest one. -/
theorem entries_of_oldest? (h : x.oldest? = none) : x.entries.entries = [] := by
  refine List.eq_nil_iff_forall_not_mem.2 fun p hp => ?_
  have hage : (⟨p.2.timestamp, p.1⟩ : Age) ∈ x.byAge.ages :=
    (x.inStep _).2 ⟨p.2, NameMap.get?_eq_some_iff.2 hp, rfl⟩
  rw [oldest?] at h
  split at h
  · next hnone =>
    rw [List.head?_eq_none_iff.1 hnone] at hage
    exact List.not_mem_nil hage
  · cases h

theorem weight_of_entries (h : x.entries.entries = []) : x.weight = 0 := by
  rw [weight, h]
  rfl

theorem weight_remove_of_get? (h : x.entries.get? d = some e) :
    x.weight = e.size.toNat + (x.remove d).weight := by
  rw [weight_erase h, weight_remove]

theorem weight_remove_le (x : DiskIndex) (d : String) : (x.remove d).weight ≤ x.weight := by
  rcases hget : x.entries.get? d with _ | e
  · exact Nat.le_of_eq (congrArg weight (remove_of_missing hget))
  · have hweight := weight_remove_of_get? hget
    omega

theorem weight_remove_of_alone (h : ∀ d', d' ≠ d → x.entries.get? d' = none) :
    (x.remove d).weight = 0 := by
  refine weight_of_entries (List.eq_nil_iff_forall_not_mem.2 fun p hp => ?_)
  have hget := NameMap.get?_eq_some_iff.2 hp
  rw [get?_remove] at hget
  split at hget
  · cases hget
  · next hne =>
    rw [h p.1 hne] at hget
    cases hget

/-- Room is made for an entry that fits alone. -/
theorem makeRoom_fits (h : x.Exact) (hsize : size ≤ maxSize)
    (hword : x.weight + size.toNat < UInt64.size) :
    (makeRoom size maxSize x).2.weight + size.toNat ≤ maxSize.toNat := by
  fun_induction makeRoom size maxSize x with
  | case1 x hfits =>
    have hexact : x.totalSize.toNat = x.weight := h
    rw [UInt64.le_iff_toNat_le, UInt64.toNat_add, hexact, Nat.mod_eq_of_lt hword] at hfits
    exact hfits
  | case2 x _ hold =>
    rw [weight_of_entries (entries_of_oldest? hold), Nat.zero_add]
    exact UInt64.le_iff_toNat_le.1 hsize
  | case3 x _ v hold victims y hroom ih =>
    have hweight := weight_remove_le x v.1
    rw [hroom] at ih
    exact ih (h.remove v.1) (by omega)

/-- An entry that fits alone is added, in the place of the one of its digest and of others that are
dropped for it, unless its size and those of all others add up to more than a 64-bit word. -/
theorem reserve_cases (h : x.Exact) (hsize : e.size ≤ maxSize) :
    (UInt64.size ≤ (x.remove d).weight + e.size.toNat ∧ x.reserve d e maxSize = none) ∨
      ∃ victims x', x.reserve d e maxSize = some (victims, x') ∧ x'.Exact ∧
        x'.weight ≤ maxSize.toNat ∧
        (∀ v ∈ victims, v.1 ≠ d ∧ x.entries.get? v.1 = some v.2) ∧
        ∀ d', x'.entries.get? d' =
          if d' = d then some e
          else if d' ∈ victims.map Prod.fst then none else x.entries.get? d' := by
  have hexact : (x.remove d).Exact := h.remove d
  have htotal : (x.remove d).totalSize.toNat = (x.remove d).weight := hexact
  by_cases hword : (x.remove d).weight + e.size.toNat < UInt64.size
  · right
    have hexact' : (makeRoom e.size maxSize (x.remove d)).2.Exact := hexact.makeRoom _ _
    have hfits := makeRoom_fits hexact hsize hword
    rcases hmake : makeRoom e.size maxSize (x.remove d) with ⟨victims, y⟩
    rw [hmake] at hexact' hfits
    -- Whatever is left beside the new entry is no heavier than what room was made in.
    have hothers := weight_remove_le y d
    have hbound := maxSize.toNat_lt
    have hsize64 : UInt64.size = 2 ^ 64 := rfl
    simp only at hexact' hfits
    obtain ⟨x', hinsert⟩ := hexact'.exists_insert (d := d) (e := e) (by omega)
    have hreserve : x.reserve d e maxSize = some (victims, x') := by
      rw [reserve]
      simp only [Amount.sum?, htotal, if_pos hword, Option.bind_some, hmake, hinsert,
        Option.map_some]
    obtain ⟨hexact'', hweight, -⟩ := insert_spec hexact' hinsert
    obtain ⟨hvictims, -, hget⟩ := reserve_spec hreserve
    exact ⟨victims, x', hreserve, hexact'', by omega, hvictims, hget⟩
  · left
    refine ⟨Nat.not_lt.1 hword, ?_⟩
    rw [reserve]
    simp only [Amount.sum?, htotal, if_neg hword, Option.bind_none]

end Room

end DiskIndex

end CodeGraph.Cache
