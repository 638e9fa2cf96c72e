import CodeGraph.Proofs.Cache.Index
import CodeGraph.Proofs.Cache.Writing

/-!
# The content of the disk layer

As long as no operation on files fails, a disk layer on a shelf stands for its content, a sidecar and
a value for each of some digests (`Shelf.Settled`). A lookup answers the value of its key and changes
nothing (`Shelf.Settled.get_of_content`), the scan of the directory finds each entry
(`Shelf.Settled.run_scan`), and a value that fits beside all others is stored
(`Shelf.Settled.run_set`).
-/

namespace CodeGraph.Cache

open DiskCache (valueEnding sidecarEnding unfinishedEnding)

/-- What is stored under each digest. -/
abbrev Content := String → Option (Sidecar × ByteArray)

namespace Content

/-- What an index of a content keeps. -/
def indexed (m : Content) (d : String) : Option IndexedEntry :=
  (m d).map fun p => p.1.indexed

/-- A content with another entry. -/
def store (m : Content) (d : String) (p : Sidecar × ByteArray) : Content :=
  fun d' => if d' = d then some p else m d'

/-- The content of a file of an entry. -/
def file (m : Content) (d e : String) : Option ByteArray :=
  if e = valueEnding then (m d).map Prod.snd
  else if e = sidecarEnding then (m d).map fun p => p.1.encode
  else none

theorem file_ne_none {m : Content} {d e : String} {p : Sidecar × ByteArray} (hp : m d = some p)
    (he : e = valueEnding ∨ e = sidecarEnding) : m.file d e ≠ none := by
  rw [file, hp]
  rcases he with rfl | rfl
  · simp
  · simp [show sidecarEnding ≠ valueEnding by decide]

end Content

/-! ## Budgets -/

/-- Things that belong to different keys, each no larger than its key allows, are together no larger
than all keys allow. -/
theorem sum_le_sum_of_owners {α : Type} {size : α → Nat} (owner : α → Option String)
    {cap : String → Nat} {l : List α} {keys : List String}
    (hdiffer : l.Pairwise fun a b => ∀ k, owner a = some k → owner b ≠ some k)
    (hnone : ∀ a ∈ l, owner a = none → size a = 0)
    (hsome : ∀ a ∈ l, ∀ k, owner a = some k → k ∈ keys ∧ size a ≤ cap k) :
    (l.map size).sum ≤ (keys.map cap).sum := by
  induction l generalizing keys with
  | nil => exact Nat.zero_le _
  | cons a l ih =>
    obtain ⟨ha, hdiffer⟩ := List.pairwise_cons.1 hdiffer
    have hnone' := fun b hb => hnone b (List.mem_cons_of_mem _ hb)
    have hsome' := fun b hb => hsome b (List.mem_cons_of_mem _ hb)
    rw [List.map_cons, List.sum_cons]
    rcases howner : owner a with _ | k
    · rw [hnone a (List.mem_cons_self ..) howner, Nat.zero_add]
      exact ih hdiffer hnone' hsome'
    · obtain ⟨hk, hsize⟩ := hsome a (List.mem_cons_self ..) k howner
      rw [((List.perm_cons_erase hk).map cap).sum_nat, List.map_cons, List.sum_cons]
      refine Nat.add_le_add hsize (ih hdiffer hnone' fun b hb k' hk' => ?_)
      obtain ⟨hmem, hsize'⟩ := hsome' b hb k' hk'
      have hne : k' ≠ k := fun heq => ha b hb k howner (heq ▸ hk')
      exact ⟨(List.mem_erase_of_ne hne).2 hmem, hsize'⟩

theorem sum_erase_add {cap : String → Nat} {keys : List String} {key : String} (hkey : key ∈ keys) :
    ((keys.erase key).map cap).sum + cap key = (keys.map cap).sum := by
  rw [((List.perm_cons_erase hkey).map cap).sum_nat, List.map_cons, List.sum_cons, Nat.add_comm]

/-- Beside the things of other keys there is room for the largest one of a key. -/
theorem sum_others_add_le {α : Type} {size : α → Nat} {name : α → String} {cap : String → Nat}
    {l : List α} {keys : List String} {key : String} (hnodup : (l.map name).Nodup)
    (hl : ∀ a ∈ l, name a ∈ keys ∧ size a ≤ cap (name a)) (hkey : key ∈ keys) :
    ((l.filter fun a => name a != key).map size).sum + cap key ≤ (keys.map cap).sum := by
  rw [← sum_erase_add hkey]
  refine Nat.add_le_add_right (sum_le_sum_of_owners (fun a => some (name a)) ?_
    (fun _ _ hnone => by cases hnone) ?_) _
  · refine ((List.pairwise_map.1 hnodup).sublist List.filter_sublist).imp ?_
    intro a b hne k ha hb
    exact hne ((Option.some.inj ha).trans (Option.some.inj hb).symm)
  · intro a ha k hk
    obtain ⟨ha, hne⟩ := List.mem_filter.1 ha
    obtain rfl := Option.some.inj hk
    obtain ⟨hmem, hsize⟩ := hl a ha
    exact ⟨(List.mem_erase_of_ne (by simpa using hne)).2 hmem, hsize⟩

/-- A content with one entry at most for each key, each no larger than its key allows, fits in what
all keys allow. -/
theorem Content.fits {m : Content} (cap : String → Nat) (keys : List String) {bound : Nat}
    (hm : ∀ d p, m d = some p →
      keyDigest p.1.key = d ∧ p.1.key ∈ keys ∧ p.1.size.toNat ≤ cap p.1.key)
    (hbound : (keys.map cap).sum ≤ bound) : DiskIndex.Fits m.indexed bound := by
  have howner : ∀ d k, (m d).map (fun p => p.1.key) = some k →
      keyDigest k = d ∧ k ∈ keys ∧ DiskIndex.sizeIn m.indexed d ≤ cap k := fun d k hk => by
    obtain ⟨p, hp, rfl⟩ := Option.map_eq_some_iff.1 hk
    obtain ⟨hdigest, hmem, hsize⟩ := hm d p hp
    refine ⟨hdigest, hmem, ?_⟩
    rw [DiskIndex.sizeIn, Content.indexed, hp]
    exact hsize
  refine fun l hl => Nat.le_trans (sum_le_sum_of_owners
    (fun d => (m d).map fun p => p.1.key) (hl.imp fun {a b} hne k ha hb => ?_)
    (fun d _ hd => ?_) fun d _ k hk => (howner d k hk).2) hbound
  · exact hne ((howner a k ha).1.symm.trans (howner b k hb).1)
  · rw [DiskIndex.sizeIn, Content.indexed, Option.map_eq_none_iff.1 hd]
    rfl

namespace Shelf

/-- A disk layer that stands for a content. -/
structure Settled (S : Shelf) (s : DiskState) (m : Content) : Prop where
  directory : s.cache.directory = S.path
  faultless : s.drive.faults = []
  site : S.Site s.drive.volume
  file : ∀ d e, IsDigest d → S.fileAt s.drive.volume d e = m.file d e
  entry : ∀ d p, m d = some p → IsDigest d ∧ p.1.version = Sidecar.currentVersion
  index : s.cache.seeded = true →
    s.cache.index.Exact ∧ ∀ d, s.cache.index.entries.get? d = m.indexed d

variable {S : Shelf} {s : DiskState} {m : Content}

namespace Settled

theorem run_read {α : Type} (h : S.Settled s m) (op : Volume → Except OsError α) :
    (DiskM.files (FileM.reading op)).run.run s = (.ok (op s.drive.volume), s) :=
  DiskM.run_files_reading h.faultless op

theorem fileAt_value (h : S.Settled s m) {d : String} (hd : IsDigest d) :
    S.fileAt s.drive.volume d valueEnding = (m d).map Prod.snd := by
  rw [h.file d _ hd, Content.file, if_pos rfl]

theorem fileAt_sidecar (h : S.Settled s m) {d : String} (hd : IsDigest d) :
    S.fileAt s.drive.volume d sidecarEnding = (m d).map fun p => p.1.encode := by
  have hne : sidecarEnding ≠ valueEnding := by decide
  rw [h.file d _ hd, Content.file, if_neg hne, if_pos rfl]

theorem stocked (h : S.Settled s m) {d : String} {p : Sidecar × ByteArray} (hp : m d = some p) :
    S.Stocked s.drive.volume := by
  cases h.site with
  | missing h' =>
    have hvalue := h.fileAt_value (h.entry d p hp).1
    rw [h'.fileAt, hp] at hvalue
    cases hvalue
  | stocked h' => exact h'

theorem run_readSidecar (h : S.Settled s m) {d : String} {p : Sidecar × ByteArray}
    (hp : m d = some p) :
    (DiskCache.readSidecar (filePath S.path d sidecarEnding)).run.run s =
      (.ok (.found p.1), s) := by
  have hd := (h.entry d p hp).1
  have hfile : S.fileAt s.drive.volume d sidecarEnding = some p.1.encode := by
    rw [h.fileAt_sidecar hd, hp]
    rfl
  have hread := (h.stocked hp).readFile hd sidecarEnding_mem hfile
  rw [DiskCache.readSidecar, FileM.readFile, run_bind_ok (h.run_read _), hread]
  simp only [Sidecar.decode?_encode]
  rfl

theorem get_of_content (h : S.Settled s m) {key : String} {p : Sidecar × ByteArray}
    (hp : m (keyDigest key) = some p) (hkey : p.1.key = key) :
    (DiskCache.get key).run.run s = (.ok (some p.2), s) := by
  have hd := isDigest_keyDigest key
  have hfile : S.fileAt s.drive.volume (keyDigest key) valueEnding = some p.2 := by
    rw [h.fileAt_value hd, hp]
    rfl
  have hread := (h.stocked hp).readFile hd valueEnding_mem hfile
  rw [DiskCache.get, run_bind_ok (run_entryPathM hd h.directory _),
    run_bind_ok (h.run_readSidecar hp)]
  simp only [(h.entry _ p hp).2, hkey, ne_eq, not_true_eq_false, if_false]
  rw [run_bind_ok (run_entryPathM hd h.directory _), FileM.readFile, run_bind_ok (h.run_read _),
    hread]
  rfl

/-- A lookup of a key that has no value answers none and changes nothing. -/
theorem run_get_of_none (h : S.Settled s m) {key : String} (hnone : m (keyDigest key) = none) :
    (DiskCache.get key).run.run s = (.ok none, s) := by
  have hd := isDigest_keyDigest key
  have hfile : S.fileAt s.drive.volume (keyDigest key) sidecarEnding = none := by
    rw [h.fileAt_sidecar hd, hnone]
    rfl
  have hread := h.run_read (·.readFile (filePath S.path (keyDigest key) sidecarEnding))
  rw [h.site.readFile_none hd sidecarEnding_mem hfile] at hread
  rw [DiskCache.get, run_bind_ok (run_entryPathM hd h.directory _), DiskCache.readSidecar,
    FileM.readFile, run_bind, run_bind_ok hread]
  rfl

theorem get_of_none (h : S.Settled s m) {key : String} (hnone : m (keyDigest key) = none) :
    ∃ r, (DiskCache.get key).run.run s = (r, s) ∧ ∀ content, r ≠ .ok (some content) :=
  ⟨.ok none, h.run_get_of_none hnone, by simp⟩

/-! ## Scanning -/

theorem run_file_read {α : Type} (h : S.Settled s m) (path : String)
    (op : Volume → Except OsError α) {a : α} (hop : op s.drive.volume = .ok a) :
    (DiskM.file path (FileM.reading op)).run.run s = (.ok a, s) :=
  DiskM.run_file_reading h.faultless path hop

/-- A file of an entry that is there is the value or the sidecar. -/
theorem ending_of_fileAt (h : S.Settled s m) {d e : String} (hd : IsDigest d)
    (hfile : S.fileAt s.drive.volume d e ≠ none) :
    (e = valueEnding ∨ e = sidecarEnding) ∧ ∃ p, m d = some p := by
  rw [h.file d e hd, Content.file] at hfile
  rcases hm : m d with _ | p
  · simp [hm] at hfile
  · refine ⟨?_, p, rfl⟩
    by_cases h₁ : e = valueEnding
    · exact .inl h₁
    by_cases h₂ : e = sidecarEnding
    · exact .inr h₂
    simp [h₁, h₂] at hfile

/-- A value stands for no entry, and its sidecar for the entry. -/
theorem run_scanName (h : S.Settled s m) {d e : String} {all : List String}
    (hd : IsDigest d) (hfile : S.fileAt s.drive.volume d e ≠ none)
    (hall : d ++ sidecarEnding ∈ all) :
    ∃ l, (DiskCache.scanName (Path.join S.path (shardOf d)) all (d ++ e)).run.run s = (.ok l, s) ∧
      ∀ p, p ∈ l ↔ d ++ e = p.1 ++ sidecarEnding ∧ m.indexed p.1 = some p.2 := by
  obtain ⟨he, p, hp⟩ := h.ending_of_fileAt hd hfile
  rcases he with rfl | rfl
  · have hsidecar := hd.withoutEnding?_value
    refine ⟨[], ?_, fun q => ⟨fun hq => (by cases hq), ?_⟩⟩
    · rw [scanName_value _ _ hsidecar, if_pos hall]
      rfl
    · rintro ⟨hname, -⟩
      rw [withoutEnding?_eq_some_iff.2 hname] at hsidecar
      cases hsidecar
  · refine ⟨[(d, p.1.indexed)], ?_, fun q => ?_⟩
    · have hread := h.run_readSidecar hp
      rw [filePath] at hread
      rw [scanName_sidecar, run_bind_ok hread]
      simp only [(h.entry d p hp).2, if_true]
      rfl
    · obtain ⟨d', e'⟩ := q
      rw [List.mem_singleton]
      constructor
      · rintro heq
        cases heq
        exact ⟨rfl, by rw [Content.indexed, hp]; rfl⟩
      · rintro ⟨hname, hindexed⟩
        obtain rfl : d = d' := hd.eq_of_append_sidecarEnding sidecarEnding_mem hname
        rw [Content.indexed, hp] at hindexed
        cases hindexed
        rfl

theorem run_scanNames (h : S.Settled s m) (d : String) (all names : List String)
    (hnames : ∀ n ∈ names, ∃ d' e, IsDigest d' ∧ n = d' ++ e ∧ shardOf d' = shardOf d ∧
      S.fileAt s.drive.volume d' e ≠ none ∧ d' ++ sidecarEnding ∈ all) :
    ∃ l, (DiskCache.scanNames (Path.join S.path (shardOf d)) all names).run.run s = (.ok l, s) ∧
      ∀ p, p ∈ l ↔ p.1 ++ sidecarEnding ∈ names ∧ m.indexed p.1 = some p.2 := by
  induction names with
  | nil => exact ⟨[], rfl, by simp⟩
  | cons n names ih =>
    obtain ⟨d', e, hd', rfl, hshard, hfile, hall⟩ := hnames n (List.mem_cons_self ..)
    obtain ⟨here, hhere, hmem⟩ := h.run_scanName hd' hfile hall
    obtain ⟨rest, hrest, hmem'⟩ := ih fun n hn => hnames n (List.mem_cons_of_mem _ hn)
    refine ⟨here ++ rest, ?_, fun p => ?_⟩
    · rw [hshard] at hhere
      rw [DiskCache.scanNames, run_bind_ok hhere, run_bind_ok hrest]
      rfl
    · rw [List.mem_append, hmem, hmem', List.mem_cons, ← or_and_right, eq_comm]

/-- The names in the directory of a digest stand for the entries whose files are there. -/
theorem run_scanShard (h : S.Settled s m) (hstocked : S.Stocked s.drive.volume) {d : String}
    (hd : IsDigest d) (hshard : S.HasShard s.drive.volume d) :
    ∃ l, (DiskCache.scanShard (Path.join S.path (shardOf d))).run.run s = (.ok l, s) ∧
      ∀ p, p ∈ l ↔ shardOf p.1 = shardOf d ∧ m.indexed p.1 = some p.2 := by
  have hsidecar : ∀ d' p, m d' = some p → shardOf d' = shardOf d →
      d' ++ sidecarEnding ∈ s.drive.volume.children (S.base ++ [shardOf d]) := fun d' p hp hsame => by
    have hd' := (h.entry d' p hp).1
    refine hstocked.mem_children_shard.2 ⟨d', sidecarEnding, hd', sidecarEnding_mem, rfl, hsame, ?_⟩
    rw [h.fileAt_sidecar hd', hp]
    simp
  obtain ⟨l, hl, hmem⟩ := h.run_scanNames d (s.drive.volume.children (S.base ++ [shardOf d]))
      (s.drive.volume.children (S.base ++ [shardOf d])) fun n hn => by
    obtain ⟨d', e, hd', -, rfl, hsame, hfile⟩ := hstocked.mem_children_shard.1 hn
    obtain ⟨-, p, hp⟩ := h.ending_of_fileAt hd' hfile
    exact ⟨d', e, hd', rfl, hsame, hfile, hsidecar d' p hp hsame⟩
  refine ⟨l, ?_, fun p => ?_⟩
  · have hkind := (hstocked.leads).linkMetadata_join hd.isPlain_shardOf (shard_short hd) hshard
      (by simp)
    have hnames := (hstocked.leads_shard hd hshard).readDir
    rw [DiskCache.scanShard, run_bind_ok (h.run_file_read _ (·.linkMetadata _) hkind)]
    simp only [Item.isDirectory, if_true]
    rw [FileM.readDir, run_bind_ok (h.run_file_read _ (·.readDir _) hnames), hl]
  · rw [hmem]
    refine and_congr_left fun hindexed => ⟨fun hn => ?_, fun hsame => ?_⟩
    · obtain ⟨d', e, hd', he, hname, hsame, -⟩ := hstocked.mem_children_shard.1 hn
      rw [← hd'.eq_of_append_sidecarEnding he hname.symm]
      exact hsame
    · obtain ⟨q, hq, -⟩ := Option.map_eq_some_iff.1 hindexed
      exact hsidecar p.1 q hq hsame

theorem run_scanShards (h : S.Settled s m) (hstocked : S.Stocked s.drive.volume)
    {names : List String}
    (hnames : ∀ n ∈ names, ∃ d, IsDigest d ∧ n = shardOf d ∧ S.HasShard s.drive.volume d) :
    ∃ l, (DiskCache.scanShards S.path names).run.run s = (.ok l, s) ∧
      ∀ p, p ∈ l ↔ shardOf p.1 ∈ names ∧ m.indexed p.1 = some p.2 := by
  induction names with
  | nil => exact ⟨[], rfl, by simp⟩
  | cons n names ih =>
    obtain ⟨d, hd, rfl, hshard⟩ := hnames n (List.mem_cons_self ..)
    obtain ⟨here, hhere, hmem⟩ := h.run_scanShard hstocked hd hshard
    obtain ⟨rest, hrest, hmem'⟩ := ih fun n hn => hnames n (List.mem_cons_of_mem _ hn)
    refine ⟨here ++ rest, ?_, fun p => ?_⟩
    · rw [DiskCache.scanShards, run_bind_ok hhere, run_bind_ok hrest]
      rfl
    · rw [List.mem_append, hmem, hmem', List.mem_cons, or_and_right]

/-- The scan of the directory finds the entries and changes nothing. -/
theorem run_scan (h : S.Settled s m) :
    ∃ l, DiskCache.scan.run.run s = (.ok l, s) ∧ ∀ p, p ∈ l ↔ m.indexed p.1 = some p.2 := by
  have hread := h.run_read (·.readDir S.path)
  rw [DiskCache.scan, run_bind_ok (run_get s), h.directory]
  change ∃ l, ((DiskM.files (FileM.reading (·.readDir S.path))) >>= _).run.run s = _ ∧ _
  rw [run_bind_ok hread]
  cases h.site with
  | missing hmissing =>
    rw [hmissing.readDir]
    refine ⟨[], rfl, fun p => ⟨fun hp => (by cases hp), fun hindexed => ?_⟩⟩
    obtain ⟨q, hq, -⟩ := Option.map_eq_some_iff.1 hindexed
    have hvalue := h.fileAt_value (h.entry p.1 q hq).1
    rw [hmissing.fileAt, hq] at hvalue
    cases hvalue
  | stocked hstocked =>
    rw [hstocked.leads.readDir]
    obtain ⟨l, hl, hmem⟩ := h.run_scanShards hstocked fun n hn => hstocked.mem_children.1 hn
    refine ⟨l, hl, fun p => ?_⟩
    rw [hmem, and_iff_right_iff_imp]
    intro hindexed
    obtain ⟨q, hq, -⟩ := Option.map_eq_some_iff.1 hindexed
    have hd := (h.entry p.1 q hq).1
    have hfile : S.fileAt s.drive.volume p.1 valueEnding = some q.2 := by
      rw [h.fileAt_value hd, hq]
      rfl
    exact hstocked.mem_children.2 ⟨p.1, hd, rfl, (hstocked.item?_place_of_fileAt hfile).2⟩

/-- The index can be made if all entries together fit in a 64-bit word. -/
theorem run_ensureIndex (h : S.Settled s m) {bound : Nat} (hfits : DiskIndex.Fits m.indexed bound)
    (hbound : bound < UInt64.size) :
    ∃ s', DiskCache.ensureIndex.run.run s = (.ok (), s') ∧ S.Settled s' m ∧
      s'.cache.seeded = true ∧ s'.drive = s.drive ∧ s'.cache.maxSize = s.cache.maxSize := by
  rw [DiskCache.ensureIndex, run_bind_ok (run_get s)]
  rcases hseeded : s.cache.seeded with _ | _
  · obtain ⟨l, hscan, hmem⟩ := h.run_scan
    obtain ⟨index, hindex, hexact, hget⟩ :=
      DiskIndex.exists_ofList? hfits hbound hmem
    refine ⟨{ s with cache := { s.cache with index, seeded := true } }, ?_,
      ⟨h.directory, h.faultless, h.site, h.file, h.entry, fun _ => ⟨hexact, hget⟩⟩, rfl, rfl, rfl⟩
    simp only [Bool.not_false, if_true]
    rw [run_bind_ok hscan, hindex]
    rfl
  · exact ⟨s, rfl, h, hseeded, rfl, rfl⟩

/-! ## Storing -/

theorem indexed_store {d : String} {p : Sidecar × ByteArray} (d' : String) :
    (m.store d p).indexed d' = if d' = d then some p.1.indexed else m.indexed d' := by
  rw [Content.indexed, Content.store]
  split <;> rfl

/-- The files of an entry that has been written are those of the content with it. -/
theorem file_store (h : S.Settled s m) {d d' e : String} {content : ByteArray} {sc : Sidecar}
    (hd' : IsDigest d') :
    S.entryAfter s.drive.volume d content sc d' e = (m.store d (sc, content)).file d' e := by
  have hfile := h.file d' e hd'
  rw [Content.file] at hfile
  rw [entryAfter, Content.file, Content.store]
  by_cases hsame : d' = d
  · simp only [hsame, if_true, Option.map_some]
    by_cases h₁ : e = valueEnding
    · simp [h₁]
    by_cases h₂ : e = sidecarEnding
    · simp [h₂]
    · rw [if_neg h₁, if_neg h₂, hsame] at hfile
      simp [h₁, h₂, hfile]
  · simp only [if_neg hsame]
    exact hfile

/-- Nothing is dropped from the index for an entry that fits beside all others. -/
theorem exists_reserve (h : S.Settled s m) (hseeded : s.cache.seeded = true) {d : String}
    {p : Sidecar × ByteArray} {maxSize : UInt64}
    (hfits : DiskIndex.Fits (m.store d p).indexed maxSize.toNat) :
    ∃ index, s.cache.index.reserve d p.1.indexed maxSize = some ([], index) ∧ index.Exact ∧
      ∀ d', index.entries.get? d' = (m.store d p).indexed d' := by
  obtain ⟨hexact, hget⟩ := h.index hseeded
  have hself : (m.store d p).indexed d = some p.1.indexed := by rw [indexed_store, if_pos rfl]
  have hroom := hfits.room (x := s.cache.index) hself fun q hq => by
    rw [DiskIndex.entries_remove] at hq
    obtain ⟨hq, hne⟩ := NameMap.mem_erase.1 hq
    rw [indexed_store, if_neg hne, ← hget, NameMap.get?_eq_some_iff]
    exact hq
  obtain ⟨index, hreserve, hexact', hget'⟩ := DiskIndex.reserve_of_fits hexact hroom
  refine ⟨index, hreserve, hexact', fun d' => ?_⟩
  rw [hget', indexed_store, hget]

theorem run_writeEntry (h : S.Settled s m) {d : String} (hd : IsDigest d) {content : ByteArray}
    {sc : Sidecar} (hversion : sc.version = Sidecar.currentVersion) {index : DiskIndex}
    (hexact : index.Exact)
    (hget : ∀ d', index.entries.get? d' = (m.store d (sc, content)).indexed d') :
    ∃ s', (DiskCache.writeEntry d content sc).run.run
        { s with cache := { s.cache with index } } = (.ok (), s') ∧
      S.Settled s' (m.store d (sc, content)) ∧ s'.cache.maxSize = s.cache.maxSize := by
  obtain ⟨hcache, -, hfiles, hfaults⟩ := wrote_writeEntry
    (s := { s with cache := { s.cache with index } }) h.directory h.site hd content sc
  rcases hwrite : (DiskCache.writeEntry d content sc).run.run
    { s with cache := { s.cache with index } } with ⟨r, s'⟩
  rw [hwrite] at hcache hfiles hfaults
  obtain ⟨rfl, hfaultless⟩ := hfaults h.faultless
  obtain ⟨hstocked, hfile⟩ := hfiles rfl
  simp only at hcache
  refine ⟨s', rfl, ⟨hcache ▸ h.directory, hfaultless, .stocked hstocked, fun d' e hd' => ?_,
    fun d' q hq => ?_, fun _ => hcache ▸ ⟨hexact, hget⟩⟩, hcache ▸ rfl⟩
  · rw [hfile d' e hd']
    exact h.file_store hd'
  · rw [Content.store] at hq
    split at hq
    · next hsame =>
      cases hq
      exact ⟨hsame ▸ hd, hversion⟩
    · exact h.entry d' q hq

/-- A value that fits beside all others is stored. -/
theorem run_set (h : S.Settled s m) {now : UInt64} {key : String} {content : ByteArray}
    {sc : Sidecar} (hsc : sc = ⟨key, now, UInt64.ofNat content.size, Sidecar.currentVersion⟩)
    (hold : DiskIndex.Fits m.indexed s.cache.maxSize.toNat)
    (hnew : DiskIndex.Fits (m.store (keyDigest key) (sc, content)).indexed
      s.cache.maxSize.toNat) :
    ∃ s', (DiskCache.set now key content).run.run s = (.ok true, s') ∧
      S.Settled s' (m.store (keyDigest key) (sc, content)) ∧
      s'.cache.maxSize = s.cache.maxSize := by
  have hsize : ¬ s.cache.maxSize < UInt64.ofNat content.size := by
    have hone := hnew [keyDigest key] (by simp)
    rw [List.map_singleton, List.sum_singleton, DiskIndex.sizeIn, indexed_store, if_pos rfl,
      hsc] at hone
    exact fun hlt => absurd (UInt64.lt_iff_toNat_lt.1 hlt) (Nat.not_lt.2 hone)
  obtain ⟨s₁, hensure, h₁, hseeded, -, hmax⟩ := h.run_ensureIndex hold s.cache.maxSize.toNat_lt
  rw [← hmax] at hnew
  obtain ⟨index, hreserve, hexact, hget⟩ := h₁.exists_reserve hseeded hnew
  obtain ⟨s₂, hwrite, h₂, hmax₂⟩ :=
    h₁.run_writeEntry (isDigest_keyDigest key) (by rw [hsc]) hexact hget
  refine ⟨s₂, ?_, h₂, hmax₂.trans hmax⟩
  rw [hsc] at hreserve hwrite
  simp only [Sidecar.indexed] at hreserve
  rw [DiskCache.set, run_bind_ok (run_get s)]
  simp only [if_neg hsize]
  rw [run_bind_ok hensure, run_bind_ok (run_get s₁)]
  simp only [hreserve]
  rw [run_bind_ok (DiskM.run_modifyIndex _ s₁), DiskCache.removeVictims,
    run_bind_ok (run_pure _ _), run_bind, run_tryCatch, hwrite]
  rfl

/-- A lookup of a key other than the one whose value is stored under its digest answers none. -/
theorem get_of_other (h : S.Settled s m) {key : String} {p : Sidecar × ByteArray}
    (hp : m (keyDigest key) = some p) (hkey : p.1.key ≠ key) :
    (DiskCache.get key).run.run s = (.ok none, s) := by
  have hd := isDigest_keyDigest key
  rw [DiskCache.get, run_bind_ok (run_entryPathM hd h.directory _),
    run_bind_ok (h.run_readSidecar hp)]
  simp only [(h.entry _ p hp).2, ne_eq, not_true_eq_false, if_false, hkey, not_false_eq_true,
    if_true]
  rfl

/-- A disk layer that has not looked at the directory yet stands for the same content. -/
theorem reopen (h : S.Settled s m) {settings : DiskSettings} (hdir : settings.directory = S.path) :
    S.Settled ⟨DiskCache.new settings, s.drive⟩ m :=
  ⟨hdir, h.faultless, h.site, h.file, h.entry, fun hseeded => by cases hseeded⟩

end Settled

/-- A new disk layer on a fresh directory has no content. -/
theorem exists_settled_new (settings : DiskSettings) (drive : Drive)
    (hfresh : Fresh drive.volume settings.directory) (hfaults : drive.faults = []) :
    ∃ S : Shelf, S.path = settings.directory ∧
      S.Settled ⟨DiskCache.new settings, drive⟩ fun _ => none := by
  obtain ⟨S, hpath, hsite, hfile⟩ := hfresh.exists_shelf
  refine ⟨S, hpath, hpath.symm, hfaults, hsite, fun d e _ => ?_, fun d p hp => (by cases hp),
    fun hseeded => (by cases hseeded)⟩
  rw [hfile, Content.file]
  split
  · rfl
  · split <;> rfl

end Shelf

end CodeGraph.Cache
