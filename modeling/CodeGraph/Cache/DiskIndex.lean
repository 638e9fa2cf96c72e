import CodeGraph.Cache.AgeSet
import CodeGraph.Cache.Settings
import CodeGraph.NameMap

/-!
# The index of the disk layer

Which entries are stored on disk, by digest, with their keys, times and sizes, and the total of the
sizes. Beside the entries the index keeps their ages in order, so that the oldest entry is found
without looking at the others. Every index has the ages of its entries and no others
(`DiskIndex.inStep`), which is what lets the search for room come to an end.

`DiskIndex.reserve` makes room for an entry by dropping the oldest others.

The sizes of entries that are found on disk may be anything. No index holds entries whose total is
not a 64-bit word: adding an entry fails that would make it so.
-/

namespace CodeGraph.Cache

/-- What the index knows of an entry. -/
structure IndexedEntry where
  key : String
  /-- When the entry was written, in milliseconds. -/
  timestamp : UInt64
  size : UInt64
  deriving DecidableEq, Repr, Inhabited

/-- The ages are those of the entries. -/
def InStep (entries : NameMap IndexedEntry) (byAge : AgeSet) : Prop :=
  ∀ a, a ∈ byAge.ages ↔ ∃ e, entries.get? a.digest = some e ∧ e.timestamp = a.timestamp

namespace InStep

variable {entries : NameMap IndexedEntry} {byAge : AgeSet} {digest : String} {e : IndexedEntry}

theorem empty : InStep .empty .empty := by
  intro a
  simp [AgeSet.empty]

theorem erase (h : InStep entries byAge) (he : entries.get? digest = some e) :
    InStep (entries.erase digest) (byAge.erase ⟨e.timestamp, digest⟩) := by
  intro a
  rw [AgeSet.mem_erase, h, NameMap.get?_erase]
  split
  · next hdigest =>
    -- The entry of this digest has one age, and this is the one that is taken out.
    have hage : ∀ e', entries.get? a.digest = some e' → e'.timestamp = a.timestamp →
        a = ⟨e.timestamp, digest⟩ := by
      intro e' he' htime
      obtain ⟨time, digest'⟩ := a
      obtain rfl : digest' = digest := hdigest
      rw [he] at he'
      cases he'
      exact congrArg (Age.mk · digest') htime.symm
    constructor
    · rintro ⟨⟨e', he', htime⟩, hne⟩
      exact absurd (hage e' he' htime) hne
    · rintro ⟨e', he', -⟩
      cases he'
  · next hdigest =>
    have hne : a ≠ ⟨e.timestamp, digest⟩ := by
      rintro rfl
      exact hdigest rfl
    exact and_iff_left hne

theorem insert (h : InStep entries byAge) (hnone : entries.get? digest = none) (e : IndexedEntry) :
    InStep (entries.insert digest e) (byAge.insert ⟨e.timestamp, digest⟩) := by
  intro a
  rw [AgeSet.mem_insert, h, NameMap.get?_insert]
  split
  · next hdigest =>
    obtain ⟨time, digest'⟩ := a
    obtain rfl : digest' = digest := hdigest
    simp [hnone, eq_comm]
  · next hdigest =>
    refine or_iff_right ?_
    rintro rfl
    exact hdigest rfl

end InStep

/-- The stored entries by digest. -/
structure DiskIndex where
  entries : NameMap IndexedEntry := .empty
  /-- The ages of the entries. -/
  byAge : AgeSet := .empty
  /-- The sum of the sizes, as a 64-bit word. -/
  totalSize : UInt64 := 0
  inStep : InStep entries byAge := by exact InStep.empty
  deriving DecidableEq

namespace DiskIndex

instance : Inhabited DiskIndex := ⟨{}⟩

/-- Drops the entry of a digest. -/
def remove (x : DiskIndex) (digest : String) : DiskIndex :=
  match h : x.entries.get? digest with
  | none => x
  | some e =>
    { entries := x.entries.erase digest
      byAge := x.byAge.erase ⟨e.timestamp, digest⟩
      totalSize := x.totalSize - e.size
      inStep := x.inStep.erase h }

theorem entries_remove (x : DiskIndex) (digest : String) :
    (x.remove digest).entries = x.entries.erase digest := by
  rw [remove]
  split
  · next h =>
    refine NameMap.ext_entries (List.filter_eq_self.2 ?_).symm
    simpa using NameMap.get?_eq_none_iff.1 h
  · rfl

theorem get?_remove (x : DiskIndex) (d d' : String) :
    (x.remove d).entries.get? d' = if d' = d then none else x.entries.get? d' := by
  rw [entries_remove, NameMap.get?_erase]

/-- Adds an entry, replacing one of the same digest. -/
def insert (x : DiskIndex) (digest : String) (e : IndexedEntry) : Option DiskIndex :=
  (Amount.sum? (x.remove digest).totalSize e.size).map fun total =>
    { entries := (x.remove digest).entries.insert digest e
      byAge := (x.remove digest).byAge.insert ⟨e.timestamp, digest⟩
      totalSize := total
      inStep := (x.remove digest).inStep.insert (by rw [get?_remove, if_pos rfl]) e }

/-- The index of a list of entries, added in turn. -/
def ofList? (l : List (String × IndexedEntry)) : Option DiskIndex :=
  l.foldlM (fun x e => x.insert e.1 e.2) {}

theorem isSome_of_first? {x : DiskIndex} {a : Age} (h : x.byAge.first? = some a) :
    (x.entries.get? a.digest).isSome := by
  obtain ⟨e, he, -⟩ := (x.inStep a).1 (AgeSet.mem_of_first? h)
  rw [he]
  rfl

/-- The entry whose age comes first. -/
def oldest? (x : DiskIndex) : Option (String × IndexedEntry) :=
  match h : x.byAge.first? with
  | none => none
  | some a => some (a.digest, (x.entries.get? a.digest).get (isSome_of_first? h))

theorem get?_of_oldest? {x : DiskIndex} {v : String × IndexedEntry} (h : x.oldest? = some v) :
    x.entries.get? v.1 = some v.2 := by
  rw [oldest?] at h
  split at h
  · cases h
  · cases h
    simp

/-- An index without one of its entries has fewer. -/
theorem size_remove_lt {x : DiskIndex} {d : String} {e : IndexedEntry}
    (h : x.entries.get? d = some e) : (x.remove d).entries.size < x.entries.size := by
  rw [entries_remove]
  exact List.length_filter_lt_length_iff_exists.2
    ⟨(d, e), NameMap.get?_eq_some_iff.1 h, by simp⟩

/-- Drops the oldest entries in turn until `size` more bytes fit or none is left. -/
def makeRoom (size maxSize : UInt64) (x : DiskIndex) : List (String × IndexedEntry) × DiskIndex :=
  if x.totalSize + size ≤ maxSize then ([], x)
  else
    match _h : x.oldest? with
    | none => ([], x)
    | some v =>
      let (victims, y) := makeRoom size maxSize (x.remove v.1)
      (v :: victims, y)
termination_by x.entries.size
decreasing_by exact size_remove_lt (get?_of_oldest? _h)

/-- Adds an entry in the place of one of the same digest and drops the oldest others until the total
fits. The dropped entries come first; their files are still there. It fails if the total is no
64-bit word before any other is dropped. -/
def reserve (x : DiskIndex) (digest : String) (e : IndexedEntry) (maxSize : UInt64) :
    Option (List (String × IndexedEntry) × DiskIndex) :=
  let x := x.remove digest
  (Amount.sum? x.totalSize e.size).bind fun _ =>
    let (victims, x) := makeRoom e.size maxSize x
    (x.insert digest e).map fun x => (victims, x)

end DiskIndex

end CodeGraph.Cache
