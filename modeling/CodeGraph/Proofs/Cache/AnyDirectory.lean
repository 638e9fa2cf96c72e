import Mathlib.Algebra.Order.BigOperators.Group.List
import Mathlib.Algebra.Order.Ring.Nat
import CodeGraph.Proofs.Cache.Programs
import CodeGraph.Proofs.Volume.Missing

/-!
# The disk layer in any directory

Whatever the directory of a cache is like and whatever faults are met, looking at files, taking them
away and making the index leave the cache as it is but for its index, and a volume with fewer items
(`Spared`). They fail for what an operation on a file answers, and for digests that name no directory:
those come from names of sidecars only (`spares_removeFiles`, `spares_scan`). The sizes that a scan
finds add up to no more than the sidecars in the directory say (`DiskCache.recordedIn`).

A store does to the index what `DiskIndex.reserve` says, and after that it fails for what an operation
on a file answers and for victims (`ends_set`).
-/

namespace CodeGraph.Cache

open DiskCache (valueEnding sidecarEnding unfinishedEnding shard? withoutEnding?)

/-- A state with a given cache, from whose volume nothing but what was in the first one is left. -/
def Spared (v : Volume) (c : DiskCache) (s : DiskState) : Prop :=
  s.cache = c ∧ s.drive.volume.Sparser v

/-- What an operation on a file has answered. -/
def CacheError.IsIo (e : CacheError) : Prop :=
  ∃ path o, e = .io path o

/-! ## What sidecars say -/

namespace DiskCache

/-- The size that a sidecar of the current version gives, by its path. -/
def recordedAt (v : Volume) (path : String) : Nat :=
  match v.readFile path with
  | .ok bytes =>
    match Sidecar.decode? bytes with
    | some m => if m.version = Sidecar.currentVersion then m.size.toNat else 0
    | none => 0
  | .error _ => 0

/-- The sizes that the sidecars of the given names in a directory give. -/
def recordedAmong (v : Volume) (path : String) (names : List String) : Nat :=
  (names.map fun n =>
    if (withoutEnding? sidecarEnding n).isSome then recordedAt v (Path.join path n) else 0).sum

/-- The sizes that the sidecars in a sub-directory give. -/
def recordedUnder (v : Volume) (path : String) : Nat :=
  match v.linkMetadata path, v.readDir path with
  | .ok .directory, .ok names => recordedAmong v path names
  | _, _ => 0

/-- The sizes that the sidecars in the sub-directories of a directory give. -/
def recordedIn (v : Volume) (dir : String) : Nat :=
  match v.readDir dir with
  | .ok names => (names.map fun n => recordedUnder v (Path.join dir n)).sum
  | .error _ => 0

/-- Whether a sub-directory of a directory has a name for the sidecar of a digest. -/
def Named (v : Volume) (dir digest : String) : Prop :=
  ∃ names, v.readDir dir = .ok names ∧ ∃ n ∈ names, ∃ names',
    v.readDir (Path.join dir n) = .ok names' ∧ digest ++ sidecarEnding ∈ names'

end DiskCache

open DiskCache (recordedAt recordedAmong recordedUnder recordedIn Named)

variable {v : Volume} {c : DiskCache} {α : Type}

/-! ## Single files -/

theorem Spared.drive {s : DiskState} (h : Spared v c s) {drive : Drive}
    (hdrive : drive.volume.Sparser s.drive.volume) : Spared v c { s with drive } :=
  ⟨h.1, hdrive.trans h.2⟩

/-- What is looked at was there at first. -/
theorem spares_look (op : Volume → Except OsError α) :
    Ends (Spared v c) (DiskM.files (FileM.reading op))
      (fun r s => (∀ a, r = .ok a → ∃ w : Volume, w.Sparser v ∧ op w = .ok a) ∧ Spared v c s)
      (fun _ _ => False) := by
  refine .files fun s h => ⟨fun a ha => ⟨s.drive.volume, h.2, FileM.reading_ok ha⟩, ?_⟩
  refine h.drive ?_
  rw [FileM.reading_volume]
  exact .refl _

theorem spares_lookFile (op : Volume → Except OsError α) (path : String) :
    Ends (Spared v c) (DiskM.file path (FileM.reading op))
      (fun a s => (∃ w : Volume, w.Sparser v ∧ op w = .ok a) ∧ Spared v c s)
      (fun e s => e.IsIo ∧ Spared v c s) := by
  refine .bind (Q := fun r s => (∀ a, r = .ok a → ∃ w : Volume, w.Sparser v ∧ op w = .ok a) ∧
    Spared v c s) ((spares_look op).imp_error fun _ _ h => h.elim)
    fun r => .assume fun hr => ?_
  split
  · exact .pure fun s h => ⟨hr _ rfl, h⟩
  · exact .throw fun s h => ⟨⟨_, _, rfl⟩, h⟩

/-- An operation that takes something away. -/
theorem spares_take {op : Volume → Except OsError Volume}
    (hop : ∀ w w', op w = .ok w' → w'.Sparser w) :
    Ends (Spared v c) (DiskM.files (FileM.writing op)) (fun _ => Spared v c) (fun _ _ => False) := by
  refine .files fun s h => h.drive ?_
  rcases FileM.writing_cases op (fun _ v => v) s.drive with ⟨w, hw, -, hv⟩ | ⟨err, -, hv | ⟨n, hv⟩⟩
  · rw [hv]
    exact hop _ _ hw
  · rw [hv]
    exact .refl _
  · rw [hv]
    exact .refl _

theorem spares_removeIfPresent (path : String) :
    Ends (Spared v c) (DiskCache.removeIfPresent path) (fun _ => Spared v c)
      (fun e s => e.IsIo ∧ Spared v c s) := by
  refine .bind ((spares_take fun _ _ => Volume.sparser_removeFile).imp_error
    fun _ _ h => h.elim) fun r => ?_
  split
  · exact .pure fun _ h => h
  · exact .pure fun _ h => h
  · exact .throw fun _ h => ⟨⟨_, _, rfl⟩, h⟩

/-- An operation on a file has failed, or one of the given digests names no directory. -/
def Fails (digests : String → Prop) (e : CacheError) : Prop :=
  e.IsIo ∨ ∃ d, digests d ∧ e = .noShard d ∧ shard? d = none

theorem Fails.mono {digests digests' : String → Prop} {e : CacheError} (h : Fails digests e)
    (hmono : ∀ d, digests d → digests' d) : Fails digests' e :=
  h.imp_right fun ⟨d, hd, he⟩ => ⟨d, hmono d hd, he⟩

theorem spares_entryPath (d e : String) :
    Ends (Spared v c) (DiskCache.entryPathM d e) (fun _ => Spared v c)
      (fun err s => Fails (· = d) err ∧ Spared v c s) := by
  unfold DiskCache.entryPathM
  split
  · refine .get_bind fun s h => .pure ?_
    rintro s rfl
    exact h
  · next hnone => exact .throw fun s h => ⟨.inr ⟨d, rfl, rfl, hnone⟩, h⟩

theorem spares_removeFiles (d : String) :
    Ends (Spared v c) (DiskCache.removeFiles d) (fun _ => Spared v c)
      (fun e s => Fails (· = d) e ∧ Spared v c s) := by
  have hremove : ∀ path, Ends (Spared v c) (DiskCache.removeIfPresent path) (fun _ => Spared v c)
      (fun e s => Fails (· = d) e ∧ Spared v c s) := fun path =>
    (spares_removeIfPresent path).imp_error fun _ _ h => ⟨.inl h.1, h.2⟩
  exact .bind (spares_entryPath d valueEnding) fun path => .bind (hremove path) fun _ =>
    .bind (spares_entryPath d sidecarEnding) fun path => hremove path

theorem spares_modifyIndex (f : DiskIndex → DiskIndex) {E : CacheError → DiskState → Prop} :
    Ends (Spared v c) (DiskM.modifyIndex f) (fun _ => Spared v { c with index := f c.index }) E :=
  .modifyIndex fun _ h => ⟨by rw [h.1], h.2⟩

theorem spares_removeDigest (d : String) :
    Ends (Spared v c) (DiskCache.removeDigest d)
      (fun _ => Spared v { c with index := c.index.remove d })
      (fun e s => Fails (· = d) e ∧ Spared v { c with index := c.index.remove d } s) :=
  .bind (spares_modifyIndex (·.remove d)) fun _ => spares_removeFiles d

/-- A sidecar that is found was there at first. -/
theorem spares_readSidecar (path : String) :
    Ends (Spared v c) (DiskCache.readSidecar path)
      (fun r s => (∀ m, r = .found m → ∃ bytes, v.readFile path = .ok bytes ∧
        Sidecar.decode? bytes = some m) ∧ Spared v c s)
      (fun e s => e.IsIo ∧ Spared v c s) := by
  refine .bind ((spares_look (·.readFile path)).imp_error
    fun _ _ h => h.elim) fun r => .assume fun hr => ?_
  split
  · next bytes =>
    obtain ⟨w, hw, hread⟩ := hr bytes rfl
    split
    · next m hdecode =>
      refine .pure fun s h => ⟨?_, h⟩
      rintro m' heq
      cases heq
      exact ⟨bytes, hw.readFile hread, hdecode⟩
    · exact .pure fun s h => ⟨fun m heq => (by cases heq), h⟩
  · exact .pure fun s h => ⟨fun m heq => (by cases heq), h⟩
  · exact .throw fun s h => ⟨⟨_, _, rfl⟩, h⟩

theorem spares_removeVictims (victims : List (String × IndexedEntry)) :
    Ends (Spared v c) (DiskCache.removeVictims victims) (fun _ => Spared v c)
      (fun e s => Fails (· ∈ victims.map Prod.fst) e ∧ Spared v c s) := by
  induction victims with
  | nil => exact .pure fun _ h => h
  | cons w victims ih =>
    refine .bind ((spares_removeFiles w.1).imp_error ?_) fun _ => ih.imp_error ?_
    · exact fun _ _ h => ⟨h.1.mono fun d hd => hd ▸ List.mem_cons_self .., h.2⟩
    · exact fun _ _ h => ⟨h.1.mono fun d hd => List.mem_cons_of_mem _ hd, h.2⟩

theorem spares_clearNames (dir : String) (names : List String) :
    Ends (Spared v c) (DiskCache.clearNames dir names) (fun _ => Spared v c)
      (fun e s => e.IsIo ∧ Spared v c s) := by
  induction names with
  | nil => exact .pure fun _ h => h
  | cons n names ih =>
    have htake : ∀ {op : Volume → Except OsError Volume} (path : String),
        (∀ w w', op w = .ok w' → w'.Sparser w) →
        Ends (Spared v c) (DiskM.file path (FileM.writing op)) (fun _ => Spared v c)
          (fun e s => e.IsIo ∧ Spared v c s) := by
      intro op path hop
      refine .bind ((spares_take hop).imp_error fun _ _ h => h.elim)
        fun r => ?_
      split
      · exact .pure fun _ h => h
      · exact .throw fun _ h => ⟨⟨_, _, rfl⟩, h⟩
    refine .bind ((spares_lookFile (·.linkMetadata _) _).imp (fun _ h => h) (fun _ _ h => h.2)
      fun _ _ h => h) fun kind => ?_
    split
    · exact .bind (htake _ fun _ _ => Volume.sparser_removeTree) fun _ => ih
    · exact .bind (htake _ fun _ _ => Volume.sparser_removeFile) fun _ => ih

theorem spares_clear :
    Ends (Spared v c) DiskCache.clear
      (fun _ s => Spared v c s ∨ Spared v { c with index := {} } s)
      (fun e s => e.IsIo ∧ Spared v c s) := by
  refine .get_bind_kept fun s hs => ?_
  rw [hs.1]
  refine .bind ((spares_look (·.readDir c.directory)).imp (fun _ h => h) (fun _ _ h => h.2)
    fun _ _ h => h.elim) fun r => ?_
  split
  · exact .pure fun _ h => .inl h
  · exact .throw fun _ h => ⟨⟨_, _, rfl⟩, h⟩
  · exact .bind (spares_clearNames _ _) fun _ =>
      (spares_modifyIndex fun _ => {}).imp (fun _ h => h) (fun _ _ h => .inr h) fun _ _ h => h

/-! ## Looking a value up -/

/-- A lookup forgets the entry of its key at most. -/
theorem spares_get (key : String) :
    Ends (Spared v c) (DiskCache.get key)
      (fun _ s => Spared v c s ∨ Spared v { c with index := c.index.remove (keyDigest key) } s)
      (fun e s => Fails (· = keyDigest key) e ∧
        (Spared v c s ∨ Spared v { c with index := c.index.remove (keyDigest key) } s)) := by
  have hgone : Ends (Spared v c)
      (do DiskCache.removeDigest (keyDigest key); return none : DiskM (Option ByteArray))
      (fun _ s => Spared v c s ∨ Spared v { c with index := c.index.remove (keyDigest key) } s)
      (fun e s => Fails (· = keyDigest key) e ∧
        (Spared v c s ∨ Spared v { c with index := c.index.remove (keyDigest key) } s)) :=
    .bind ((spares_removeDigest _).imp_error
      fun _ _ h => ⟨h.1, .inr h.2⟩) fun _ => .pure fun _ h => .inr h
  have hpath : ∀ e, Ends (Spared v c) (DiskCache.entryPathM (keyDigest key) e)
      (fun _ => Spared v c) (fun err s => Fails (· = keyDigest key) err ∧
        (Spared v c s ∨ Spared v { c with index := c.index.remove (keyDigest key) } s)) := fun e =>
    (spares_entryPath _ e).imp_error fun _ _ h => ⟨h.1, .inl h.2⟩
  unfold DiskCache.get
  refine .bind (hpath sidecarEnding) fun path => .bind ((spares_readSidecar path).imp (fun _ h => h)
    (fun _ _ h => h.2) fun _ _ h => ⟨.inl h.1, .inl h.2⟩) fun r => ?_
  split
  · exact .pure fun _ h => .inl h
  · exact hgone
  · split
    · exact hgone
    split
    · exact .pure fun _ h => .inl h
    refine .bind (hpath valueEnding) fun path => .bind ((spares_look _).imp (fun _ h => h)
      (fun _ _ h => h.2) fun _ _ h => h.elim) fun r => ?_
    split
    · exact .pure fun _ h => .inl h
    · exact hgone
    · exact .throw fun _ h => ⟨.inl ⟨_, _, rfl⟩, .inl h⟩

/-! ## Scanning -/

/-- A scan has found entries with digests such as are given and with sizes that are together within a
bound. -/
structure Found (digests : String → Prop) (bound : Nat) (l : List (String × IndexedEntry)) : Prop where
  digest : ∀ p ∈ l, digests p.1
  weight : (l.map fun p => p.2.size.toNat).sum ≤ bound

theorem Found.nil {digests : String → Prop} {bound : Nat} : Found digests bound [] :=
  ⟨fun p hp => (by cases hp), Nat.zero_le _⟩

theorem Found.append {digests digests' : String → Prop} {bound bound' : Nat}
    {l l' : List (String × IndexedEntry)} (h : Found digests bound l)
    (h' : Found digests' bound' l') :
    Found (fun d => digests d ∨ digests' d) (bound + bound') (l ++ l') := by
  refine ⟨?_, ?_⟩
  · intro p hp
    exact (List.mem_append.1 hp).imp (h.digest p) (h'.digest p)
  · rw [List.map_append, List.sum_append]
    exact Nat.add_le_add h.weight h'.weight

theorem Found.mono {digests digests' : String → Prop} {bound bound' : Nat}
    {l : List (String × IndexedEntry)} (h : Found digests bound l)
    (hdigests : ∀ d, digests d → digests' d) (hbound : bound ≤ bound') : Found digests' bound' l :=
  ⟨fun p hp => hdigests _ (h.digest p hp), Nat.le_trans h.weight hbound⟩

theorem spares_scanName (path : String) (all : List String) (name : String) :
    Ends (Spared v c) (DiskCache.scanName path all name)
      (fun l s => Found (fun d => name = d ++ sidecarEnding)
        (recordedAmong v path [name]) l ∧ Spared v c s)
      (fun e s => Fails (fun d => name = d ++ sidecarEnding) e ∧ Spared v c s) := by
  have hremove : Ends (Spared v c)
      (do DiskCache.removeIfPresent (Path.join path name); return [])
      (fun l s => Found (fun d => name = d ++ sidecarEnding) (recordedAmong v path [name]) l ∧
        Spared v c s)
      (fun e s => Fails (fun d => name = d ++ sidecarEnding) e ∧ Spared v c s) :=
    .bind ((spares_removeIfPresent _).imp_error
      fun _ _ h => ⟨.inl h.1, h.2⟩) fun _ => .pure fun _ h => ⟨.nil, h⟩
  unfold DiskCache.scanName
  split
  · exact hremove
  split
  · next d hending =>
    have hname := withoutEnding?_eq_some_iff.1 hending
    have hgone : Ends (Spared v c) (do DiskCache.removeFiles d; return [])
        (fun l s => Found (fun d => name = d ++ sidecarEnding) (recordedAmong v path [name]) l ∧
          Spared v c s)
        (fun e s => Fails (fun d => name = d ++ sidecarEnding) e ∧ Spared v c s) :=
      .bind ((spares_removeFiles d).imp_error
        fun _ _ h => ⟨h.1.mono fun d' hd' => hd' ▸ hname, h.2⟩) fun _ => .pure fun _ h => ⟨.nil, h⟩
    refine .bind ((spares_readSidecar _).imp_error
      fun _ _ h => ⟨.inl h.1, h.2⟩) fun r => .assume fun hr => ?_
    split
    · exact .pure fun _ h => ⟨.nil, h⟩
    · next m =>
      split
      · next hversion =>
        obtain ⟨bytes, hread, hdecode⟩ := hr m rfl
        have hrecorded : recordedAt v (Path.join path name) = m.size.toNat := by
          simp only [recordedAt, hread, hdecode, if_pos hversion]
        refine .pure fun s h => ⟨⟨?_, ?_⟩, h⟩
        · intro p hp
          rw [List.mem_singleton.1 hp]
          exact hname
        · simp [recordedAmong, hending, hrecorded, Sidecar.indexed]
      · exact hgone
    · exact hgone
  · split
    · split
      · exact .pure fun _ h => ⟨.nil, h⟩
      · exact hremove
    · exact .pure fun _ h => ⟨.nil, h⟩

theorem spares_scanNames (path : String) (all names : List String) :
    Ends (Spared v c) (DiskCache.scanNames path all names)
      (fun l s => Found (fun d => d ++ sidecarEnding ∈ names) (recordedAmong v path names) l ∧
        Spared v c s)
      (fun e s => Fails (fun d => d ++ sidecarEnding ∈ names) e ∧ Spared v c s) := by
  induction names with
  | nil => exact .pure fun _ h => ⟨.nil, h⟩
  | cons n names ih =>
    have hbound : recordedAmong v path (n :: names) =
        recordedAmong v path [n] + recordedAmong v path names := by
      simp [recordedAmong]
    rw [hbound]
    refine .bind ((spares_scanName path all n).imp_error ?_) fun here =>
      .assume fun hhere => .bind (ih.imp_error ?_) fun rest =>
        .assume fun hrest => .pure fun s h => ⟨(hhere.append hrest).mono ?_ (Nat.le_refl _), h⟩
    · exact fun _ _ h => ⟨h.1.mono fun d hd => hd ▸ List.mem_cons_self .., h.2⟩
    · exact fun _ _ h => ⟨h.1.mono fun d hd => List.mem_cons_of_mem _ hd, h.2⟩
    · rintro d (hd | hd)
      · exact hd ▸ List.mem_cons_self ..
      · exact List.mem_cons_of_mem _ hd

theorem recordedAmong_le {path : String} {names all : List String} (h : names.Sublist all) :
    recordedAmong v path names ≤ recordedAmong v path all :=
  (h.map _).sum_le_sum fun _ _ => Nat.zero_le _

/-- What a scan finds in a sub-directory is recorded there. -/
theorem spares_scanShard (path : String) :
    Ends (Spared v c) (DiskCache.scanShard path)
      (fun l s => Found (fun d => ∃ names, v.readDir path = .ok names ∧ d ++ sidecarEnding ∈ names)
        (recordedUnder v path) l ∧ Spared v c s)
      (fun e s => Fails (fun d => ∃ names, v.readDir path = .ok names ∧
        d ++ sidecarEnding ∈ names) e ∧ Spared v c s) := by
  unfold DiskCache.scanShard
  refine .bind ((spares_lookFile (·.linkMetadata path) path).imp_error
    fun _ _ h => ⟨.inl h.1, h.2⟩) fun kind => .assume fun ⟨w, hw, hkind⟩ => ?_
  split
  · next hdirectory =>
    obtain rfl : kind = .directory := by
      rcases kind with _ | _ | _
      · cases hdirectory
      · rfl
      · cases hdirectory
    refine .bind ((spares_lookFile (·.readDir path) path).imp_error
      fun _ _ h => ⟨.inl h.1, h.2⟩) fun names => .assume fun ⟨w', hw', hnames⟩ => ?_
    obtain ⟨all, hall, hsublist⟩ := hw'.readDir hnames
    have hunder : recordedUnder v path = recordedAmong v path all := by
      simp only [recordedUnder, hw.linkMetadata hkind, hall]
    rw [hunder]
    refine (spares_scanNames path names names).imp (fun _ h => h) ?_ ?_
    · exact fun l s h => ⟨h.1.mono (fun d hd => ⟨all, hall, hsublist.subset hd⟩)
        (recordedAmong_le hsublist), h.2⟩
    · exact fun e s h => ⟨h.1.mono fun d hd => ⟨all, hall, hsublist.subset hd⟩, h.2⟩
  · exact .pure fun _ h => ⟨.nil, h⟩

theorem spares_scanShards (dir : String) (names : List String) :
    Ends (Spared v c) (DiskCache.scanShards dir names)
      (fun l s => Found (fun d => ∃ n ∈ names, ∃ names', v.readDir (Path.join dir n) = .ok names' ∧
          d ++ sidecarEnding ∈ names')
        (names.map fun n => recordedUnder v (Path.join dir n)).sum l ∧ Spared v c s)
      (fun e s => Fails (fun d => ∃ n ∈ names, ∃ names', v.readDir (Path.join dir n) = .ok names' ∧
          d ++ sidecarEnding ∈ names') e ∧ Spared v c s) := by
  induction names with
  | nil => exact .pure fun _ h => ⟨.nil, h⟩
  | cons n names ih =>
    rw [List.map_cons, List.sum_cons]
    refine .bind ((spares_scanShard (Path.join dir n)).imp_error ?_)
      fun here => .assume fun hhere => .bind (ih.imp_error ?_) fun rest =>
        .assume fun hrest => .pure fun s h => ⟨(hhere.append hrest).mono ?_ (Nat.le_refl _), h⟩
    · exact fun _ _ h => ⟨h.1.mono fun d hd => ⟨n, List.mem_cons_self .., hd⟩, h.2⟩
    · exact fun _ _ h => ⟨h.1.mono fun d ⟨m, hm, hd⟩ => ⟨m, List.mem_cons_of_mem _ hm, hd⟩, h.2⟩
    · rintro d (hd | ⟨m, hm, hd⟩)
      · exact ⟨n, List.mem_cons_self .., hd⟩
      · exact ⟨m, List.mem_cons_of_mem _ hm, hd⟩

/-- **What a scan finds was in the directory at first**, and so is a digest that it breaks off for. -/
theorem spares_scan :
    Ends (Spared v c) DiskCache.scan
      (fun l s => Found (Named v c.directory) (recordedIn v c.directory) l ∧ Spared v c s)
      (fun e s => Fails (Named v c.directory) e ∧ Spared v c s) := by
  refine .get_bind_kept fun s hs => ?_
  rw [hs.1]
  refine .bind ((spares_look (·.readDir c.directory)).imp_error
    fun _ _ h => h.elim) fun r => .assume fun hr => ?_
  split
  · next names =>
    obtain ⟨w, hw, hnames⟩ := hr names rfl
    obtain ⟨all, hall, hsublist⟩ := hw.readDir hnames
    have hin : recordedIn v c.directory =
        (all.map fun n => recordedUnder v (Path.join c.directory n)).sum := by
      simp only [recordedIn, hall]
    rw [hin]
    refine (spares_scanShards c.directory names).imp (fun _ h => h) ?_ ?_
    · exact fun l s h => ⟨h.1.mono (fun d ⟨n, hn, hd⟩ => ⟨all, hall, n, hsublist.subset hn, hd⟩)
        ((hsublist.map _).sum_le_sum fun _ _ => Nat.zero_le _), h.2⟩
    · exact fun e s h => ⟨h.1.mono fun d ⟨n, hn, hd⟩ => ⟨all, hall, n, hsublist.subset hn, hd⟩, h.2⟩
  · exact .pure fun _ h => ⟨.nil, h⟩
  · exact .throw fun _ h => ⟨.inl ⟨_, _, rfl⟩, h⟩

/-! ## Making the index -/

/-- The second cache is the first one with its index made, of what a scan has found. -/
def Made (v : Volume) (c c' : DiskCache) : Prop :=
  c.seeded = true ∧ c' = c ∨
    c.seeded = false ∧ ∃ l index, Found (Named v c.directory) (recordedIn v c.directory) l ∧
      DiskIndex.ofList? l = some index ∧ c' = { c with index, seeded := true }

/-- Why the index may not be made. -/
def Unmade (v : Volume) (c : DiskCache) (e : CacheError) : Prop :=
  c.seeded = false ∧ (Fails (Named v c.directory) e ∨
    e = .overflow ∧ ∃ l, Found (Named v c.directory) (recordedIn v c.directory) l ∧
      DiskIndex.ofList? l = none)

theorem Made.seeded {c' : DiskCache} (h : Made v c c') : c'.seeded = true := by
  rcases h with ⟨hseeded, rfl⟩ | ⟨-, l, index, -, -, rfl⟩
  · exact hseeded
  · rfl

theorem Made.maxSize {c' : DiskCache} (h : Made v c c') : c'.maxSize = c.maxSize := by
  rcases h with ⟨-, rfl⟩ | ⟨-, l, index, -, -, rfl⟩
  · rfl
  · rfl

theorem spares_ensureIndex :
    Ends (Spared v c) DiskCache.ensureIndex (fun _ s => ∃ c', Made v c c' ∧ Spared v c' s)
      (fun e s => Unmade v c e ∧ Spared v c s) := by
  refine .get_bind_kept fun s hs => ?_
  rw [hs.1]
  rcases hseeded : c.seeded with _ | _
  · simp only [Bool.not_false, if_true]
    refine .bind (spares_scan.imp_error
      fun _ _ h => ⟨⟨hseeded, .inl h.1⟩, h.2⟩) fun l => .assume fun hl => ?_
    split
    · next hnone => exact .throw fun s h => ⟨⟨hseeded, .inr ⟨rfl, l, hl, hnone⟩⟩, h⟩
    · next index hindex =>
      refine .modify fun s h => ⟨_, .inr ⟨hseeded, l, index, hl, hindex, rfl⟩, ?_⟩
      exact ⟨by rw [← h.1], h.2⟩
  · simp only [Bool.not_true, Bool.false_eq_true, if_false]
    exact .pure fun s h => ⟨c, .inl ⟨hseeded, rfl⟩, h⟩

/-! ## Storing -/

namespace DiskCache

variable {now : UInt64} {key : String} {content : ByteArray} {s s₁ : DiskState}

theorem ensureIndex_of_seeded (hseeded : s.cache.seeded = true) :
    ensureIndex.run.run s = (.ok (), s) := by
  rw [ensureIndex, run_bind_ok (run_get s), hseeded]
  rfl

theorem set_unmade {e : CacheError} (hsize : ¬ s.cache.maxSize < UInt64.ofNat content.size)
    (hmade : ensureIndex.run.run s = (.error e, s₁)) :
    (set now key content).run.run s = (.error e, s₁) := by
  rw [set, run_bind_ok (run_get s)]
  simp only [if_neg hsize]
  exact run_bind_error hmade

end DiskCache

/-- The room that is made in the index for a value. -/
def DiskCache.reserveFor (c : DiskCache) (now : UInt64) (key : String) (content : ByteArray) :
    Option (List (String × IndexedEntry) × DiskIndex) :=
  c.index.reserve (keyDigest key) ⟨key, now, UInt64.ofNat content.size⟩ c.maxSize

/-- How a store may fail once the index has been made, and what it leaves of the cache. -/
def StoreFails (c : DiskCache) (now : UInt64) (key : String) (content : ByteArray) (e : CacheError)
    (c' : DiskCache) : Prop :=
  c.reserveFor now key content = none ∧ e = .overflow ∧
      c' = { c with index := c.index.remove (keyDigest key) } ∨
    ∃ victims index, c.reserveFor now key content = some (victims, index) ∧
      (Fails (· ∈ victims.map Prod.fst) e ∧ c' = { c with index } ∨
        e.IsIo ∧ c' = { c with index := index.remove (keyDigest key) })

theorem StoreFails.seeded {c' : DiskCache} {now : UInt64} {key : String} {content : ByteArray}
    {e : CacheError} (h : StoreFails c now key content e c') : c'.seeded = c.seeded := by
  rcases h with ⟨-, -, rfl⟩ | ⟨victims, index, -, ⟨-, rfl⟩ | ⟨-, rfl⟩⟩
  · rfl
  · rfl
  · rfl

theorem ends_file_cache (path : String) (op : FileM (Except OsError α)) :
    Ends (·.cache = c) (DiskM.file path op) (fun _ s => s.cache = c)
      (fun e s => e.IsIo ∧ s.cache = c) := by
  refine .file fun s h => ?_
  split
  · exact h
  · exact ⟨⟨_, _, rfl⟩, h⟩

theorem ends_writeEntry_cache {d : String} (hd : IsDigest d) (content : ByteArray) (m : Sidecar) :
    Ends (·.cache = c) (DiskCache.writeEntry d content m) (fun _ s => s.cache = c)
      (fun e s => e.IsIo ∧ s.cache = c) := by
  have hpath : ∀ e, Ends (·.cache = c) (DiskCache.entryPathM d e) (fun _ s => s.cache = c)
      (fun e s => e.IsIo ∧ s.cache = c) := by
    intro e
    rw [DiskCache.entryPathM, hd.shard?_eq]
    refine .get_bind fun s h => .pure ?_
    rintro s rfl
    exact h
  have hwhole : ∀ path content, Ends (·.cache = c) (DiskCache.writeWhole path content)
      (fun _ s => s.cache = c) (fun e s => e.IsIo ∧ s.cache = c) := fun path content =>
    .bind (ends_file_cache _ _) fun _ => ends_file_cache _ _
  refine .get_bind_kept fun s h => ?_
  exact .bind (ends_file_cache _ _) fun _ => .bind (hpath valueEnding) fun path =>
    .bind (hwhole path content) fun _ => .bind (hpath sidecarEnding) fun path =>
      hwhole path m.encode

/-- **What a store does to the index** is what making room says, and what fails after that is an
operation on a file, or there is a victim whose digest names no directory. -/
theorem ends_set (now : UInt64) (key : String) (content : ByteArray) :
    Ends (Spared v c) (DiskCache.set now key content)
      (fun kept s => kept = false ∧ Spared v c s ∨
        kept = true ∧ ∃ c' victims index, Made v c c' ∧ ¬ c'.maxSize < UInt64.ofNat content.size ∧
          c'.reserveFor now key content = some (victims, index) ∧ s.cache = { c' with index })
      (fun e s => Unmade v c e ∧ Spared v c s ∨
        ∃ c', Made v c c' ∧ ¬ c'.maxSize < UInt64.ofNat content.size ∧
          StoreFails c' now key content e s.cache) := by
  refine .get_bind_kept fun s hs => ?_
  rw [hs.1]
  split
  · exact .pure fun s h => .inl ⟨rfl, h⟩
  next hsize =>
  refine .bind (spares_ensureIndex.imp_error fun _ _ h => .inl h)
    fun _ => .of_exists fun c' => .assume fun hmade => .get_bind_kept fun s hs => ?_
  rw [← hmade.maxSize] at hsize
  rw [hs.1]
  split
  · next hreserve =>
    exact .bind (spares_modifyIndex (·.remove (keyDigest key))) fun _ =>
      .throw fun s h => .inr ⟨c', hmade, hsize, .inl ⟨hreserve, rfl, h.1⟩⟩
  next victims index hreserve =>
  have hfails : ∀ {e c''}, (Fails (· ∈ victims.map Prod.fst) e ∧ c'' = { c' with index } ∨
      e.IsIo ∧ c'' = { c' with index := index.remove (keyDigest key) }) →
      StoreFails c' now key content e c'' :=
    fun h => .inr ⟨victims, index, hreserve, h⟩
  refine .bind (spares_modifyIndex fun _ => index) fun _ => .bind
    ((spares_removeVictims victims).imp (fun _ h => h) (fun _ s h => h.1) fun _ _ h =>
      .inr ⟨c', hmade, hsize, hfails (.inl ⟨h.1, h.2.1⟩)⟩) fun _ => ?_
  refine .bind (.handle (ends_writeEntry_cache (isDigest_keyDigest key) content _) fun e =>
    .assume fun he => .bind (.modifyIndex (Q := fun _ s => s.cache =
      { c' with index := index.remove (keyDigest key) }) fun s h => by rw [h]) fun _ =>
        .throw fun s h => .inr ⟨c', hmade, hsize, hfails (.inr ⟨he, h⟩)⟩) fun _ => ?_
  exact .pure fun s h => .inr ⟨rfl, c', victims, index, hmade, hsize, hreserve, h⟩

end CodeGraph.Cache
