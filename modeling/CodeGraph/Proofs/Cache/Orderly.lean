import CodeGraph.Proofs.Cache.Accounting
import CodeGraph.Proofs.Cache.Staged
import CodeGraph.Proofs.Cache.Writing

/-!
# The disk layer while a value is stored

Others see the files of the disk layer in the middle of a store, and a store sees what others take away
between its steps. A victim may be without its value, or a new value stand beside the old sidecar.
Whatever comes between, every sidecar is one that a store has written under a key that is not gone, and
so is what will be moved to the place of one (`Shelf.Orderly`). Each step of a store and of a lookup
leaves it so, from any disk layer of this kind (`Shelf.keeps_set`, `Shelf.keeps_get`). So no lookup finds
a value of a key that is gone, and clearing leaves no entry (`Shelf.Orderly.run_clear`).

A lookup reads the sidecar and then the value, and both steps leave all as it is
(`Shelf.Orderly.advance_get`, `Shelf.Orderly.advance_getValue`), unless the value has gone in the
meantime: then the lookup takes the entry away, which a store may have written again
(`Shelf.Settled.advance_getValue`).
-/

namespace CodeGraph.Cache

open DiskCache (valueEnding sidecarEnding unfinishedEnding withoutEnding?)
open Staged (Keeps keeps_pure keeps_throw keeps_piece)

/-- Bytes that make a sidecar of the current version, under a key that is not gone. -/
def Standing (gone : String → Prop) (bytes : ByteArray) : Prop :=
  ∃ m, Sidecar.decode? bytes = some m ∧ m.version = Sidecar.currentVersion ∧ ¬ gone m.key

/-- The endings of sidecars and of what is written to be moved to the place of one. -/
def sidecarEndings : List String :=
  [sidecarEnding, sidecarEnding ++ unfinishedEnding]

namespace Shelf

/-- A disk layer without faults whose sidecars are in order, and whose index has names of entries
only. -/
structure Orderly (S : Shelf) (gone : String → Prop) (s : DiskState) : Prop where
  directory : s.cache.directory = S.path
  faultless : s.drive.faults = []
  site : S.Site s.drive.volume
  sidecar : ∀ d e bytes, IsDigest d → e ∈ sidecarEndings →
    S.fileAt s.drive.volume d e = some bytes → Standing gone bytes
  digest : ∀ p ∈ s.cache.index.entries.entries, IsDigest p.1

variable {S : Shelf} {gone gone' : String → Prop} {s : DiskState} {m : Content} {d e : String}
  {now : UInt64} {key : String} {content : ByteArray}

theorem Orderly.modifyIndex (h : S.Orderly gone s) {f : DiskIndex → DiskIndex}
    (hf : ∀ p ∈ (f s.cache.index).entries.entries, IsDigest p.1) :
    S.Orderly gone { s with cache := { s.cache with index := f s.cache.index } } :=
  ⟨h.directory, h.faultless, h.site, h.sidecar, hf⟩

/-- A file has been changed. -/
theorem Orderly.changed (h : S.Orderly gone s) {v : Volume} {o : Option ByteArray}
    (hchanged : S.Changed s.drive.volume v d e o)
    (ho : e ∈ sidecarEndings → ∀ bytes, o = some bytes → Standing gone bytes) :
    S.Orderly gone { s with drive := ⟨v, []⟩ } := by
  refine ⟨h.directory, rfl, .stocked hchanged.stocked, fun d' e' bytes hd' he' hbytes => ?_, h.digest⟩
  rw [hchanged.file d' e' hd'] at hbytes
  split at hbytes
  · next hsame => exact ho (hsame.2 ▸ he') bytes hbytes
  · exact h.sidecar d' e' bytes hd' he' hbytes

/-- Without files everything is in order. -/
theorem orderly_of_bare (hdir : s.cache.directory = S.path) (hfaults : s.drive.faults = [])
    (hsite : S.Site s.drive.volume) (hnone : ∀ d e, S.fileAt s.drive.volume d e = none)
    (hdigest : ∀ p ∈ s.cache.index.entries.entries, IsDigest p.1) : S.Orderly gone s := by
  refine ⟨hdir, hfaults, hsite, fun d e bytes _ _ hbytes => ?_, hdigest⟩
  rw [hnone] at hbytes
  cases hbytes

/-- A disk layer that stands for its content is in order if the content has no values of keys that are
gone. -/
theorem Accounted.orderly (h : S.Accounted s m) (hgone : ∀ k, gone k → m.answer k = none)
    (hdigest : ∀ p ∈ s.cache.index.entries.entries, IsDigest p.1) : S.Orderly gone s := by
  refine ⟨h.settled.directory, h.settled.faultless, h.settled.site, fun d e bytes hd he hbytes => ?_,
    hdigest⟩
  rw [h.settled.file d e hd] at hbytes
  rcases List.mem_pair.1 he with rfl | rfl
  · rw [← h.settled.file d _ hd, h.settled.fileAt_sidecar hd] at hbytes
    obtain ⟨p, hp, rfl⟩ := Option.map_eq_some_iff.1 hbytes
    refine ⟨p.1, Sidecar.decode?_encode p.1, (h.settled.entry d p hp).2, fun hk => ?_⟩
    have hnone := hgone _ hk
    rw [Content.answer, (h.own d p hp).1, hp] at hnone
    simp at hnone
  · rw [Content.file, if_neg (by decide), if_neg (by decide)] at hbytes
    cases hbytes

/-! ## Taking away -/

/-- A change of one file. -/
theorem ends_writing {path : String} {write : Volume → Except OsError Volume}
    {torn : Nat → Volume → Volume} (hwrite : ∀ s, S.Orderly gone s →
      ∀ v, write s.drive.volume = .ok v → S.Orderly gone { s with drive := ⟨v, []⟩ }) :
    Ends (S.Orderly gone) (DiskM.file path (FileM.writing write torn)) (fun _ => S.Orderly gone)
      fun _ => S.Orderly gone := by
  refine .file fun s h => ?_
  rw [FileM.writing_faultless h.faultless]
  rcases hop : write s.drive.volume with o | v
  · exact h
  · exact hwrite s h v hop

theorem ends_removeIfPresent_orderly (hd : IsDigest d) (he : e ∈ endings) :
    Ends (S.Orderly gone) (DiskCache.removeIfPresent (filePath S.path d e))
      (fun _ => S.Orderly gone) fun _ => S.Orderly gone := by
  refine .bind (Q := fun _ => S.Orderly gone) (.files fun s h => ?_) fun r => ?_
  · rw [FileM.removeFile, FileM.writing_faultless h.faultless]
    rcases hremove : s.drive.volume.removeFile (filePath S.path d e) with o | v
    · exact h
    · exact h.changed (h.site.removeFile hd he hremove) fun _ _ hbytes => by cases hbytes
  · split
    · exact .pure fun _ h => h
    · exact .pure fun _ h => h
    · exact .throw fun _ h => h

/-- What is done with the path of a file of an entry. -/
theorem ends_entryPath_orderly (hd : IsDigest d) {α : Type} {f : String → DiskM α}
    {Q : α → DiskState → Prop} {E : CacheError → DiskState → Prop}
    (hf : Ends (S.Orderly gone) (f (filePath S.path d e)) Q E) :
    Ends (S.Orderly gone) (DiskCache.entryPathM d e >>= f) Q E := by
  refine ⟨fun s h => ?_⟩
  rw [run_bind_ok (run_entryPathM hd h.directory e)]
  exact hf.from_state s h

section Files

variable (hd : IsDigest d) (he : e ∈ endings)

include hd he

theorem keeps_removeIfPresent :
    Keeps (S.Orderly gone) (fun _ => True)
      (.piece (DiskCache.removeIfPresent (filePath S.path d e))) :=
  keeps_piece ((ends_removeIfPresent_orderly hd he).imp (fun _ h => h) (fun _ _ h => ⟨trivial, h⟩)
    fun _ _ h => h)

theorem keeps_removeFile :
    Keeps (S.Orderly gone) (fun _ => True) (Staged.removeFile d e) :=
  keeps_piece (ends_entryPath_orderly hd ((ends_removeIfPresent_orderly hd he).imp (fun _ h => h)
    (fun _ _ h => ⟨trivial, h⟩) fun _ _ h => h))

end Files

theorem keeps_removeFiles (hd : IsDigest d) :
    Keeps (S.Orderly gone) (fun _ => True) (Staged.removeFiles d) :=
  (keeps_removeFile hd valueEnding_mem).bind fun _ _ => keeps_removeFile hd sidecarEnding_mem

theorem keeps_modifyIndex {f : DiskIndex → DiskIndex} (hf : ∀ x : DiskIndex,
      (∀ p ∈ x.entries.entries, IsDigest p.1) → ∀ p ∈ (f x).entries.entries, IsDigest p.1) :
    Keeps (S.Orderly gone) (fun _ => True) (.piece (DiskM.modifyIndex f)) :=
  keeps_piece (.modifyIndex fun _ h => ⟨trivial, h.modifyIndex (hf _ h.digest)⟩)

theorem keeps_forget (d : String) :
    Keeps (S.Orderly gone) (fun _ => True) (.piece (DiskM.modifyIndex (·.remove d))) :=
  keeps_modifyIndex fun _ h p hp => h p (DiskIndex.mem_of_remove hp)

theorem keeps_removeDigest (hd : IsDigest d) :
    Keeps (S.Orderly gone) (fun _ => True) (Staged.removeDigest d) :=
  (keeps_forget d).bind fun _ _ => keeps_removeFiles hd

theorem keeps_removeVictims {victims : List (String × IndexedEntry)}
    (hdigests : ∀ v ∈ victims, IsDigest v.1) :
    Keeps (S.Orderly gone) (fun _ => True) (Staged.removeVictims victims) := by
  induction victims with
  | nil => exact keeps_pure trivial
  | cons v victims ih =>
    exact (keeps_removeFiles (hdigests v (List.mem_cons_self ..))).bind fun _ _ =>
      ih fun w hw => hdigests w (List.mem_cons_of_mem _ hw)

/-! ## Making the index -/

/-- Looking at the files of a disk layer leaves all as it is. -/
theorem ends_look_orderly {α : Type} (path : String) (op : Volume → Except OsError α) :
    Ends (S.Orderly gone) (DiskM.file path (FileM.reading op))
      (fun a s => (∃ v, S.Site v ∧ op v = .ok a) ∧ S.Orderly gone s) fun _ => S.Orderly gone := by
  refine .file fun s h => ?_
  rw [FileM.reading_faultless h.faultless]
  rcases hop : op s.drive.volume with o | a
  · exact h
  · exact ⟨⟨_, h.site, hop⟩, h⟩

theorem keeps_readSidecar (path : String) :
    Keeps (S.Orderly gone) (fun _ => True) (.piece (DiskCache.readSidecar path)) := by
  refine keeps_piece (.bind (Q := fun _ => S.Orderly gone) (.files fun s h => ?_) fun found => ?_)
  · rw [FileM.readFile, FileM.reading_faultless h.faultless]
    exact h
  · split
    · split
      · exact .pure fun _ h => ⟨trivial, h⟩
      · exact .pure fun _ h => ⟨trivial, h⟩
    · exact .pure fun _ h => ⟨trivial, h⟩
    · exact .throw fun _ h => h

/-- Whether all entries are named by digests. -/
def Named (l : List (String × IndexedEntry)) : Prop :=
  ∀ p ∈ l, IsDigest p.1

theorem named_nil : Named [] :=
  fun _ hp => by cases hp

theorem Named.append {l l' : List (String × IndexedEntry)} (h : Named l) (h' : Named l') :
    Named (l ++ l') := fun p hp =>
  (List.mem_append.1 hp).elim (h p) (h' p)

section Scan

variable (hd : IsDigest d)

include hd

theorem keeps_scanName (he : e ∈ endings) (all : List String) :
    Keeps (S.Orderly gone) Named
      (Staged.scanName (Path.join S.path (shardOf d)) all (d ++ e)) := by
  have hnil : Keeps (S.Orderly gone) Named (pure []) := keeps_pure named_nil
  rw [Staged.scanName]
  split
  · exact (keeps_removeIfPresent hd he).bind fun _ _ => hnil
  split
  · next digest hending =>
    obtain rfl : d = digest :=
      hd.eq_of_append_sidecarEnding he (withoutEnding?_eq_some_iff.1 hending)
    refine (keeps_readSidecar _).bind fun found _ => ?_
    split
    · exact hnil
    · split
      · refine keeps_pure fun p hp => ?_
        obtain rfl := List.mem_singleton.1 hp
        exact hd
      · exact (keeps_removeFiles hd).bind fun _ _ => hnil
    · exact (keeps_removeFiles hd).bind fun _ _ => hnil
  · split
    · split
      · exact hnil
      · exact (keeps_removeIfPresent hd he).bind fun _ _ => hnil
    · exact hnil

omit hd in
theorem keeps_scanNames (all : List String) {names : List String}
    (hnames : ∀ n ∈ names,
      ∃ d' e, IsDigest d' ∧ e ∈ endings ∧ n = d' ++ e ∧ shardOf d' = shardOf d) :
    Keeps (S.Orderly gone) Named
      (Staged.scanNames (Path.join S.path (shardOf d)) all names) := by
  induction names with
  | nil => exact keeps_pure named_nil
  | cons n names ih =>
    obtain ⟨d', e, hd', he, rfl, hshard⟩ := hnames n (List.mem_cons_self ..)
    have hname : Keeps (S.Orderly gone) Named
        (Staged.scanName (Path.join S.path (shardOf d')) all (d' ++ e)) := keeps_scanName hd' he all
    rw [hshard] at hname
    exact hname.bind fun here hhere => (ih fun m hm => hnames m (List.mem_cons_of_mem _ hm)).bind
      fun others hothers => keeps_pure (hhere.append hothers)

theorem keeps_scanShard :
    Keeps (S.Orderly gone) Named (Staged.scanShard (Path.join S.path (shardOf d))) := by
  refine (keeps_piece (ends_look_orderly _ _)).bind fun kind _ => ?_
  split
  · refine (keeps_piece (ends_look_orderly _ (·.readDir _))).bind ?_
    rintro names ⟨v, hsite, hnames⟩
    exact keeps_scanNames names fun n hn => hsite.readDir_shard hd hnames hn
  · exact keeps_pure named_nil

end Scan

theorem keeps_scanShards {names : List String}
    (hnames : ∀ n ∈ names, ∃ d, IsDigest d ∧ n = shardOf d) :
    Keeps (S.Orderly gone) Named (Staged.scanShards S.path names) := by
  induction names with
  | nil => exact keeps_pure named_nil
  | cons n names ih =>
    obtain ⟨d, hd, rfl⟩ := hnames n (List.mem_cons_self ..)
    exact (keeps_scanShard hd).bind fun here hhere =>
      (ih fun m hm => hnames m (List.mem_cons_of_mem _ hm)).bind fun others hothers =>
        keeps_pure (hhere.append hothers)

theorem keeps_state :
    Keeps (S.Orderly gone) (S.Orderly gone) (.piece MonadState.get) :=
  keeps_piece ⟨fun _ h => ⟨h, h⟩⟩

theorem keeps_scan : Keeps (S.Orderly gone) Named Staged.scan := by
  refine keeps_state.bind fun s hs => ?_
  simp only [hs.directory]
  refine (keeps_piece (Q := fun r => ∀ names, r = .ok names →
    ∀ n ∈ names, ∃ d, IsDigest d ∧ n = shardOf d) (.files fun s h => ?_)).bind fun r hr => ?_
  · rw [FileM.readDir, FileM.reading_faultless h.faultless]
    exact ⟨fun names hnames n hn => h.site.readDir hnames hn, h⟩
  · split
    · exact keeps_scanShards (hr _ rfl)
    · exact keeps_pure named_nil
    · exact keeps_throw

theorem keeps_ensureIndex : Keeps (S.Orderly gone) (fun _ => True) Staged.ensureIndex := by
  refine keeps_state.bind fun s _ => ?_
  split
  · refine keeps_scan.bind fun entries hentries => ?_
    split
    · exact keeps_throw
    · next index hindex =>
      exact keeps_piece (.modify fun s h => ⟨trivial, h.directory, h.faultless, h.site, h.sidecar,
        fun p hp => hentries p (DiskIndex.mem_of_ofList? hindex hp)⟩)
  · exact keeps_pure trivial

theorem Orderly.run_stats (h : S.Orderly gone s) : S.Orderly gone (DiskCache.stats.run.run s).2 := by
  have hensure := (keeps_ensureIndex.run h).1
  rw [Staged.carries_ensureIndex] at hensure
  rw [DiskCache.stats, run_bind]
  rcases hrun : DiskCache.ensureIndex.run.run s with ⟨e | _, s'⟩
  · rw [hrun] at hensure
    exact hensure
  · rw [hrun] at hensure
    exact hensure

/-! ## Writing -/

section Write

variable (hd : IsDigest d)

include hd

/-- The content is written to the draft of a file and moved to the file, if it is still there. What is
moved to the place of a sidecar is in order. -/
theorem keeps_writeWhole (he : e ∈ endings) (hdraft : e ++ unfinishedEnding ∈ endings)
    (hne : e ++ unfinishedEnding ≠ e)
    (hpair : e ++ unfinishedEnding ∈ sidecarEndings ↔ e ∈ sidecarEndings)
    (hcontent : e ∈ sidecarEndings → Standing gone content) :
    Keeps (S.Orderly gone) (fun _ => True) (Staged.writeWhole (filePath S.path d e) content) := by
  rw [Staged.writeWhole, filePath_append S.path hd he hdraft]
  refine (keeps_piece (Q := fun _ => True) ((ends_writing fun s h v hwrite => ?_).imp (fun _ h => h)
    (fun _ _ h => ⟨trivial, h⟩) fun _ _ h => h)).bind fun _ _ =>
      keeps_piece ((ends_writing fun s h v hrename => ?_).imp (fun _ h => h)
        (fun _ _ h => ⟨trivial, h⟩) fun _ _ h => h)
  · refine h.changed (h.site.writeFile hd hdraft hwrite) fun hmem bytes hbytes => ?_
    obtain rfl := Option.some.inj hbytes
    exact hcontent (hpair.1 hmem)
  · obtain ⟨draft, v₁, hfile, hremoved, hput⟩ := h.site.rename hd hdraft he hne hrename
    refine (h.changed hremoved fun _ _ hbytes => by cases hbytes).changed hput fun hmem bytes hbytes => ?_
    obtain rfl := Option.some.inj hbytes
    exact h.sidecar d _ _ hd (hpair.2 hmem) hfile

theorem keeps_entryPath (e : String) :
    Keeps (S.Orderly gone) (· = filePath S.path d e) (.piece (DiskCache.entryPathM d e)) := by
  refine keeps_piece ⟨fun s h => ?_⟩
  rw [run_entryPathM hd h.directory e]
  exact ⟨rfl, h⟩

theorem keeps_makeShard :
    Keeps (S.Orderly gone) (fun _ => True) (.piece (do
      let shard := Path.join (← MonadState.get).cache.directory ((DiskCache.shard? d).getD "")
      DiskM.file shard (FileM.makeDirs shard))) := by
  refine keeps_piece (.get_bind fun s h => ⟨fun s' hs' => ?_⟩)
  have hshard : Path.join s.cache.directory ((DiskCache.shard? d).getD "") =
      Path.join S.path (shardOf d) := by
    rw [hd.shard?_eq, h.directory]
    rfl
  rw [hs', hshard]
  obtain ⟨hcache, hmake, hfaults⟩ := run_makeDirs h.directory h.site hd
  obtain ⟨hok, hfaults⟩ := hfaults h.faultless
  rcases hrun : (DiskM.file (Path.join S.path (shardOf d))
    (FileM.makeDirs (Path.join S.path (shardOf d)))).run.run s with ⟨r, s'⟩
  rw [hrun] at hcache hmake hok hfaults
  obtain rfl : r = .ok () := hok
  rcases hmake with ⟨-, hopen, hsame⟩ | ⟨⟨err, herr⟩, -⟩
  · refine ⟨trivial, hopen.directory, hfaults, .stocked hopen.stocked, ?_, hcache ▸ h.digest⟩
    intro d' e' bytes hd' he' hbytes
    rw [hsame] at hbytes
    exact h.sidecar d' e' bytes hd' he' hbytes
  · cases herr

theorem keeps_writeEntry {m : Sidecar} (hversion : m.version = Sidecar.currentVersion)
    (hkey : ¬ gone m.key) :
    Keeps (S.Orderly gone) (fun _ => True) (Staged.writeEntry d content m) := by
  refine (keeps_makeShard hd).bind fun _ _ => (keeps_entryPath hd valueEnding).bind ?_
  rintro _ rfl
  refine (keeps_writeWhole hd valueEnding_mem (by decide) (by decide) (by decide)
    fun hmem => absurd hmem (by decide)).bind fun _ _ => (keeps_entryPath hd sidecarEnding).bind ?_
  rintro _ rfl
  exact keeps_writeWhole hd sidecarEnding_mem (by decide) (by decide) (by decide)
    fun _ => ⟨m, Sidecar.decode?_encode m, hversion, hkey⟩

end Write

/-! ## Storing -/

/-- Room is made in the index for a value, and the victims that it answers are entries. -/
theorem keeps_reserve {size : UInt64} :
    Keeps (S.Orderly gone) Named (.piece (Staged.reserve now key size)) := by
  refine keeps_piece (.get_bind fun s h => ?_)
  rcases hreserve : s.cache.index.reserve (keyDigest key) ⟨key, now, size⟩ s.cache.maxSize
    with _ | ⟨victims, index⟩
  · refine .bind (Q := fun _ => S.Orderly gone) (.modifyIndex ?_) fun _ => .throw fun _ h => h
    rintro _ rfl
    exact h.modifyIndex (f := (·.remove (keyDigest key))) fun p hp =>
      h.digest p (DiskIndex.mem_of_remove hp)
  · refine .bind (Q := fun _ => S.Orderly gone) (.modifyIndex ?_) fun _ => .pure fun _ h' =>
      ⟨fun v hv => h.digest v ((DiskIndex.mem_of_reserve hreserve).1 hv), h'⟩
    rintro _ rfl
    refine h.modifyIndex (f := fun _ => index) fun p hp => ?_
    rcases (DiskIndex.mem_of_reserve hreserve).2 hp with rfl | hp
    · exact isDigest_keyDigest key
    · exact h.digest p hp

/-- **Each step of a store leaves the sidecars in order**, if its key is not gone. -/
theorem keeps_set (now : UInt64) (hkey : ¬ gone key) (content : ByteArray) :
    Keeps (S.Orderly gone) (fun _ => True) (Staged.set now key content) := by
  refine keeps_state.bind fun s _ => ?_
  split
  · exact keeps_pure trivial
  refine keeps_ensureIndex.bind fun _ _ => keeps_reserve.bind fun victims hvictims =>
    (keeps_removeVictims hvictims).bind fun _ _ => ?_
  refine Keeps.bind (Q := fun _ => True) (Keeps.handle ?_ fun e => ?_) fun _ _ => keeps_pure trivial
  · exact keeps_writeEntry (isDigest_keyDigest key) rfl hkey
  · exact (keeps_forget _).bind fun _ _ => keeps_throw

/-! ## Looking a value up -/

/-- A sidecar is missing, or it is found and has a key that is not gone. -/
theorem Orderly.run_readSidecar (h : S.Orderly gone s) (hd : IsDigest d) :
    (DiskCache.readSidecar (filePath S.path d sidecarEnding)).run.run s = (.ok .missing, s) ∨
      ∃ m : Sidecar, (DiskCache.readSidecar (filePath S.path d sidecarEnding)).run.run s =
          (.ok (.found m), s) ∧ m.version = Sidecar.currentVersion ∧ ¬ gone m.key := by
  rw [DiskCache.readSidecar, FileM.readFile, run_bind_ok (DiskM.run_files_reading h.faultless _),
    h.site.readFile_eq hd sidecarEnding_mem]
  rcases hfile : S.fileAt s.drive.volume d sidecarEnding with _ | bytes
  · exact .inl rfl
  · obtain ⟨m, hm, hversion, hkey⟩ := h.sidecar d _ bytes hd (List.mem_cons_self ..) hfile
    refine .inr ⟨m, ?_, hversion, hkey⟩
    simp only [hm]
    rfl

/-- The first step of a lookup leaves all as it is. The key is found to be missing, or the value is
looked for; that of a key that is gone is not. -/
theorem Orderly.advance_get (h : S.Orderly gone s) (key : String) :
    (Staged.get key).advance s = (.done (.ok none), s) ∨
      (Staged.get key).advance s = (Staged.getValue key, s) ∧ ¬ gone key := by
  have hpath := run_entryPathM (isDigest_keyDigest key) h.directory sidecarEnding
  have hread : ∀ r, (DiskCache.readSidecar (filePath S.path (keyDigest key) sidecarEnding)).run.run s =
      (.ok r, s) → (do DiskCache.readSidecar (← DiskCache.entryPathM (keyDigest key)
        sidecarEnding)).run.run s = (.ok r, s) := fun r hr => by rw [run_bind_ok hpath, hr]
  rcases h.run_readSidecar (isDigest_keyDigest key) with hmissing | ⟨m, hfound, hversion, hkey⟩
  · exact .inl (Staged.advance_piece_bind (hread _ hmissing) _)
  · rw [Staged.get, Staged.advance_piece_bind (hread _ hfound)]
    simp only [hversion, ne_eq, not_true_eq_false, if_false]
    by_cases hsame : m.key = key
    · rw [if_neg (not_not.2 hsame)]
      exact .inr ⟨rfl, hsame ▸ hkey⟩
    · rw [if_pos hsame]
      exact .inl rfl

theorem run_valueOf (hdir : s.cache.directory = S.path) (hfaults : s.drive.faults = [])
    (hsite : S.Site s.drive.volume) (hd : IsDigest d) :
    (Staged.valueOf d).run.run s = (.ok (S.fileAt s.drive.volume d valueEnding), s) := by
  rw [Staged.valueOf, run_bind_ok (run_entryPathM hd hdir valueEnding), FileM.readFile,
    run_bind_ok (DiskM.run_files_reading hfaults _), hsite.readFile_eq hd valueEnding_mem]
  rcases S.fileAt s.drive.volume d valueEnding with _ | bytes
  · rfl
  · rfl

theorem Orderly.exists_value (h : S.Orderly gone s) (key : String)
    (hthere : s.drive.volume.readFile (s.cache.valuePath key) ≠ .error .notFound) :
    ∃ bytes, S.fileAt s.drive.volume (keyDigest key) valueEnding = some bytes := by
  have hpath : s.cache.valuePath key = filePath S.path (keyDigest key) valueEnding := by
    rw [DiskCache.valuePath, DiskCache.entryPath, (isDigest_keyDigest key).shard?_eq, h.directory]
    rfl
  rw [hpath, h.site.readFile_eq (isDigest_keyDigest key) valueEnding_mem] at hthere
  rcases hfile : S.fileAt s.drive.volume (keyDigest key) valueEnding with _ | bytes
  · rw [hfile] at hthere
    exact absurd rfl hthere
  · exact ⟨bytes, rfl⟩

/-- A value that is there is answered. -/
theorem Orderly.advance_getValue (h : S.Orderly gone s) {bytes : ByteArray}
    (hvalue : S.fileAt s.drive.volume (keyDigest key) valueEnding = some bytes) :
    (Staged.getValue key).advance s = (.done (.ok (some bytes)), s) := by
  have hrun := run_valueOf h.directory h.faultless h.site (isDigest_keyDigest key)
  rw [hvalue] at hrun
  exact Staged.advance_piece_bind hrun _

/-- A lookup that finds the sidecar of its key goes on to the value. -/
theorem Settled.advance_get (h : S.Settled s m) {p : Sidecar × ByteArray}
    (hp : m (keyDigest key) = some p) (hkey : p.1.key = key) :
    (Staged.get key).advance s = (Staged.getValue key, s) := by
  have hpath := run_entryPathM (isDigest_keyDigest key) h.directory sidecarEnding
  rw [Staged.get, Staged.advance_piece_bind ((run_bind_ok hpath).trans (h.run_readSidecar hp))]
  simp only [(h.entry _ p hp).2, hkey, ne_eq, not_true_eq_false, if_false]

/-- **If the value has gone the entry is taken away.** -/
theorem Settled.advance_getValue (h : S.Settled s m) (hnone : m (keyDigest key) = none) :
    (Staged.getValue key).advance s =
      (do
        Staged.removeDigest (keyDigest key)
        return none, s) := by
  have hrun := run_valueOf h.directory h.faultless h.site (isDigest_keyDigest key)
  rw [h.fileAt_value (isDigest_keyDigest key), hnone] at hrun
  exact Staged.advance_piece_bind hrun _

/-- What is left of a lookup that has found the sidecar of a key that is not gone. -/
theorem keeps_getValue (hkey : ¬ gone key) :
    Keeps (S.Orderly gone) (fun r => gone key → r = none) (Staged.getValue key) := by
  refine (keeps_piece (Q := fun _ => True) ⟨fun s h => ?_⟩).bind fun found _ => ?_
  · rw [run_valueOf h.directory h.faultless h.site (isDigest_keyDigest key)]
    exact ⟨trivial, h⟩
  · split
    · exact keeps_pure fun hk => absurd hk hkey
    · exact (keeps_removeDigest (isDigest_keyDigest key)).bind fun _ _ => keeps_pure fun _ => rfl

/-- **Each step of a lookup leaves the sidecars in order**, and no value of a key that is gone is
answered. -/
theorem keeps_get (key : String) :
    Keeps (S.Orderly gone) (fun r => gone key → r = none) (Staged.get key) := by
  have hd := isDigest_keyDigest key
  have hnone : Keeps (S.Orderly gone) (fun r : Option ByteArray => gone key → r = none)
      (pure none) := keeps_pure fun _ => rfl
  have hgone : Keeps (S.Orderly gone) (fun r : Option ByteArray => gone key → r = none)
      (do Staged.removeDigest (keyDigest key); return none) :=
    (keeps_removeDigest hd).bind fun _ _ => hnone
  refine (keeps_piece (Q := fun r => ∀ m, r = .found m → ¬ gone m.key)
    (ends_entryPath_orderly hd ⟨fun s h => ?_⟩)).bind fun found hfound => ?_
  · rcases h.run_readSidecar hd with hmissing | ⟨m, hm, -, hkey⟩
    · rw [hmissing]
      exact ⟨fun m hm => (by cases hm), h⟩
    · rw [hm]
      refine ⟨fun m' hm' => ?_, h⟩
      cases hm'
      exact hkey
  · split
    · exact hnone
    · exact hgone
    · next m =>
      split
      · exact hgone
      split
      · exact hnone
      · next hsame => exact keeps_getValue (not_not.1 hsame ▸ hfound m rfl)

/-! ## Clearing -/

/-- A disk layer without files and with an empty index stands for nothing. -/
theorem accounted_none (h : S.Settled s fun _ => none) : S.Accounted s fun _ => none :=
  ⟨h, fun d p hp => (by cases hp),
    Content.fits (fun _ => 0) [] (fun _ _ hp => by cases hp) (Nat.zero_le _)⟩

/-- **Clearing leaves no entry.** If there is a directory the index has forgotten all. -/
theorem Orderly.run_clear (h : S.Orderly gone s) :
    ∃ s', DiskCache.clear.run.run s = (.ok (), s') ∧ S.Orderly gone' s' ∧
      DiskCache.Holds s'.drive.volume S.path S.base [] ∧
      (s'.drive.volume.readDir S.path ≠ .error .notFound → S.Accounted s' fun _ => none) := by
  obtain ⟨s', hrun, hfaults, hsite, hnone, hcache⟩ :=
    Shelf.run_clear h.directory h.faultless h.site
  have hdir : s'.cache.directory = S.path := by
    rcases hcache with ⟨rfl, -⟩ | hcache
    · exact h.directory
    · rw [hcache]
      exact h.directory
  have hempty : S.Accounted ⟨{ s'.cache with index := {} }, s'.drive⟩ fun _ => none :=
    accounted_none (settled_none hdir hfaults hsite hnone rfl)
  have hholds : DiskCache.Holds s'.drive.volume S.path S.base [] :=
    hempty.holds List.nodup_nil fun p => by simp
  rcases hcache with ⟨rfl, hmissing⟩ | hcache
  · exact ⟨s', hrun, orderly_of_bare hdir hfaults hsite hnone h.digest, hholds,
      fun hthere => absurd hmissing hthere⟩
  · have hindex : s'.cache.index = {} := by rw [hcache]
    refine ⟨s', hrun, orderly_of_bare hdir hfaults hsite hnone fun p hp => ?_, hholds,
      fun _ => accounted_none (settled_none hdir hfaults hsite hnone hindex)⟩
    rw [hindex] at hp
    cases hp

end Shelf

end CodeGraph.Cache
