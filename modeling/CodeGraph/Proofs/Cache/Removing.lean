import CodeGraph.Proofs.Cache.Content

/-!
# Removing entries

Taking away the files of an entry leaves the files of the content without it, and no file that is
already gone is missed (`Shelf.Filed.run_removeFiles`); so do taking away those of several entries in
turn (`Shelf.Filed.run_removeVictims`) and the entry of a key (`Shelf.Settled.run_remove`). Clearing
leaves no content (`Shelf.Settled.run_clear`).

While entries are replaced the index is ahead of the directory. What the directory holds is therefore
said without the index (`Shelf.Filed`).
-/

namespace CodeGraph.Cache

open DiskCache (valueEnding sidecarEnding)

namespace Content

/-- A content without the entries of some digests. -/
def without (m : Content) (ds : List String) : Content :=
  fun d => if d ∈ ds then none else m d

theorem without_cons (m : Content) (d : String) (ds : List String) :
    (m.without [d]).without ds = m.without (d :: ds) := by
  funext d'
  by_cases hd : d' = d
  · simp [without, hd]
  · simp [without, hd]

theorem file_without (m : Content) (ds : List String) (d e : String) :
    (m.without ds).file d e = if d ∈ ds then none else m.file d e := by
  rw [file, file, without]
  by_cases hd : d ∈ ds
  · simp [hd]
  · simp [hd]

theorem indexed_without (m : Content) (ds : List String) (d : String) :
    (m.without ds).indexed d = if d ∈ ds then none else m.indexed d := by
  rw [indexed, indexed, without]
  split <;> rfl

end Content

namespace Shelf

variable {S : Shelf} {s : DiskState} {m : Content} {d e : String}

/-- A disk layer whose directory holds the files of a content, whatever its index says. -/
structure Filed (S : Shelf) (s : DiskState) (m : Content) : Prop where
  directory : s.cache.directory = S.path
  faultless : s.drive.faults = []
  site : S.Site s.drive.volume
  file : ∀ d e, IsDigest d → S.fileAt s.drive.volume d e = m.file d e
  entry : ∀ d p, m d = some p → IsDigest d ∧ p.1.version = Sidecar.currentVersion

/-- The files of a settled layer are those of its content, even after its index has moved on. -/
theorem Settled.filed (h : S.Settled s m) (index : DiskIndex) :
    S.Filed { s with cache := { s.cache with index } } m :=
  ⟨h.directory, h.faultless, h.site, h.file, h.entry⟩

theorem Filed.settled (h : S.Filed s m)
    (hindex : s.cache.seeded = true →
      s.cache.index.Exact ∧ ∀ d, s.cache.index.entries.get? d = m.indexed d) : S.Settled s m :=
  ⟨h.directory, h.faultless, h.site, h.file, h.entry, hindex⟩

/-! ## Files -/

/-- A file is taken away if it is there, and all others stay. -/
theorem run_removeIfPresent (hfaults : s.drive.faults = []) (hsite : S.Site s.drive.volume)
    (hd : IsDigest d) (he : e ∈ endings) :
    ∃ v, (DiskCache.removeIfPresent (filePath S.path d e)).run.run s =
        (.ok (), { s with drive := ⟨v, []⟩ }) ∧ S.Site v ∧
      ∀ d' e', IsDigest d' → S.fileAt v d' e' =
        if d' = d ∧ e' = e then none else S.fileAt s.drive.volume d' e' := by
  obtain ⟨cache, ⟨v, faults⟩⟩ := s
  obtain rfl : faults = [] := hfaults
  rw [DiskCache.removeIfPresent, run_bind_ok (DiskM.run_files _ _), FileM.removeFile,
    FileM.writing_faultless rfl]
  simp only at hsite ⊢
  rcases hfile : S.fileAt v d e with _ | content
  · rw [hsite.removeFile_none hd he hfile]
    refine ⟨v, rfl, hsite, ?_⟩
    intro d' e' _
    by_cases hsame : d' = d ∧ e' = e
    · rw [if_pos hsame, hsame.1, hsame.2, hfile]
    · rw [if_neg hsame]
  · cases hsite with
    | missing hmissing =>
      rw [hmissing.fileAt] at hfile
      cases hfile
    | stocked hstocked =>
      obtain ⟨v', hremove, hchanged⟩ := hstocked.removeFile hd he hfile
      rw [hremove]
      exact ⟨v', rfl, .stocked hchanged.stocked, hchanged.file⟩

/-- Both files of an entry are taken away. -/
theorem Filed.run_removeFiles (h : S.Filed s m) (hd : IsDigest d) :
    ∃ v, (DiskCache.removeFiles d).run.run s = (.ok (), { s with drive := ⟨v, []⟩ }) ∧
      S.Filed { s with drive := ⟨v, []⟩ } (m.without [d]) := by
  obtain ⟨v₁, hvalue, hsite₁, hfile₁⟩ :=
    run_removeIfPresent h.faultless h.site hd valueEnding_mem
  obtain ⟨v₂, hsidecar, hsite₂, hfile₂⟩ :=
    run_removeIfPresent (s := { s with drive := ⟨v₁, []⟩ }) rfl hsite₁ hd sidecarEnding_mem
  refine ⟨v₂, ?_, h.directory, rfl, hsite₂, ?_, ?_⟩
  · rw [DiskCache.removeFiles, run_bind_ok (run_entryPathM hd h.directory _), run_bind_ok hvalue,
      run_bind_ok (run_entryPathM (s := { s with drive := ⟨v₁, []⟩ }) hd h.directory _), hsidecar]
  · intro d' e' hd'
    rw [hfile₂ d' e' hd', hfile₁ d' e' hd', h.file d' e' hd', Content.file_without]
    simp only [List.mem_singleton]
    by_cases hsame : d' = d
    · by_cases hvalue : e' = valueEnding
      · simp [hsame, hvalue]
      by_cases hsidecar : e' = sidecarEnding
      · simp [hsame, hsidecar]
      · simp [hsame, hvalue, hsidecar, Content.file]
    · simp [hsame]
  · intro d' p hp
    rw [Content.without] at hp
    split at hp
    · cases hp
    · exact h.entry d' p hp

/-- The files of several entries are taken away. -/
theorem Filed.run_removeVictims {victims : List (String × IndexedEntry)} (h : S.Filed s m)
    (hdigests : ∀ v ∈ victims, IsDigest v.1) :
    ∃ v, (DiskCache.removeVictims victims).run.run s = (.ok (), { s with drive := ⟨v, []⟩ }) ∧
      S.Filed { s with drive := ⟨v, []⟩ } (m.without (victims.map Prod.fst)) := by
  induction victims generalizing s m with
  | nil =>
    have hsame : ({ s with drive := ⟨s.drive.volume, []⟩ } : DiskState) = s := by
      rw [← h.faultless]
    refine ⟨s.drive.volume, ?_, ?_⟩
    · rw [DiskCache.removeVictims, hsame]
      rfl
    · have hnone : m.without [] = m := by
        funext d
        simp [Content.without]
      rw [hsame, List.map_nil, hnone]
      exact h
  | cons w victims ih =>
    obtain ⟨v₁, hfirst, h₁⟩ := h.run_removeFiles (hdigests w (List.mem_cons_self ..))
    obtain ⟨v₂, hrest, h₂⟩ := ih h₁ fun u hu => hdigests u (List.mem_cons_of_mem _ hu)
    refine ⟨v₂, ?_, ?_⟩
    · rw [DiskCache.removeVictims, run_bind_ok hfirst, hrest]
    · rw [Content.without_cons] at h₂
      exact h₂

/-! ## Entries -/

/-- The entry of a key is taken away, whether or not the index has been made. -/
theorem Settled.run_remove (h : S.Settled s m) (key : String) :
    ∃ s', (DiskCache.remove key).run.run s = (.ok (), s') ∧
      S.Settled s' (m.without [keyDigest key]) ∧
      s'.cache = { s.cache with index := s.cache.index.remove (keyDigest key) } := by
  have hfiled := h.filed (s.cache.index.remove (keyDigest key))
  obtain ⟨v, hrun, hfiled'⟩ := hfiled.run_removeFiles (isDigest_keyDigest key)
  refine ⟨_, ?_, hfiled'.settled ?_, rfl⟩
  · rw [DiskCache.remove, DiskCache.removeDigest, run_bind_ok (DiskM.run_modifyIndex _ s), hrun]
  · intro hseeded
    obtain ⟨hexact, hget⟩ := h.index hseeded
    refine ⟨hexact.remove _, ?_⟩
    intro d
    rw [DiskIndex.get?_remove, hget, Content.indexed_without]
    simp only [List.mem_singleton]

/-! ## Clearing -/

/-- The directory of a digest is taken away with the files in it. -/
theorem Stocked.removeShard {v : Volume} (h : S.Stocked v) (hd : IsDigest d)
    (hshard : S.HasShard v d) :
    ∃ v', v.removeTree (Path.join S.path (shardOf d)) = .ok v' ∧ S.Stocked v' ∧
      ∀ d', S.HasShard v' d' ↔ S.HasShard v d' ∧ shardOf d' ≠ shardOf d := by
  have hbelow : ∀ r, S.base ++ [shardOf d] <+: S.base ++ r ↔ [shardOf d] <+: r := fun r =>
    List.prefix_append_right_inj S.base
  have hitem : ∀ q, ¬ S.base ++ [shardOf d] <+: q →
      (v.remove (S.base ++ [shardOf d])).item? q = v.item? q := by
    intro q hq
    rw [Volume.item?_remove, if_neg]
    rintro ⟨-, hprefix⟩
    exact hq (List.isPrefixOf_iff_prefix.1 hprefix)
  have hshards : ∀ d', S.HasShard (v.remove (S.base ++ [shardOf d])) d' ↔
      S.HasShard v d' ∧ shardOf d' ≠ shardOf d := by
    intro d'
    by_cases hsame : shardOf d' = shardOf d
    · simp [HasShard, hsame, Volume.item?_remove]
    · rw [HasShard, hitem]
      · simp [HasShard, hsame]
      · rw [hbelow, List.cons_prefix_cons]
        exact fun hprefix => hsame hprefix.1.symm
  refine ⟨_, h.leads.removeTree_join hd.isPlain_shardOf (shard_short hd) hshard,
    ⟨within_of_item? h.within rfl ?_, ?_, Volume.nodup_children_remove _ h.listed⟩, hshards⟩
  · intro q hq
    refine hitem q ?_
    rintro ⟨t, rfl⟩
    exact hq ([shardOf d] ++ t) (by simp) (List.append_assoc ..)
  · intro r i hr hi
    rw [Volume.item?_remove] at hi
    split at hi
    · cases hi
    · next hkept =>
      cases h.known r i hr hi with
      | shard hd' => exact .shard hd'
      | @file d' e content hd' he hs =>
        refine .file hd' he ((hshards d').2 ⟨hs, ?_⟩)
        intro hsame
        refine hkept ⟨by simp, ?_⟩
        rw [List.isPrefixOf_iff_prefix, hbelow, hsame]
        exact ⟨[d' ++ e], rfl⟩

/-- Everything that is listed is taken away. -/
theorem run_clearNames (hfaults : s.drive.faults = []) {names : List String}
    (hstocked : S.Stocked s.drive.volume) (hnodup : names.Nodup)
    (hnames : ∀ n ∈ names, ∃ d, IsDigest d ∧ n = shardOf d)
    (hshards : ∀ d, S.HasShard s.drive.volume d ↔ shardOf d ∈ names) :
    ∃ v, (DiskCache.clearNames S.path names).run.run s = (.ok (), { s with drive := ⟨v, []⟩ }) ∧
      S.Stocked v ∧ ∀ d, ¬ S.HasShard v d := by
  induction names generalizing s with
  | nil =>
    have hsame : ({ s with drive := ⟨s.drive.volume, []⟩ } : DiskState) = s := by
      rw [← hfaults]
    refine ⟨s.drive.volume, ?_, hstocked, ?_⟩
    · rw [DiskCache.clearNames, hsame]
      rfl
    · intro d
      rw [hshards d]
      exact List.not_mem_nil
  | cons n names ih =>
    obtain ⟨hn, hothers⟩ := List.nodup_cons.1 hnodup
    obtain ⟨d, hd, rfl⟩ := hnames n (List.mem_cons_self ..)
    have hshard : S.HasShard s.drive.volume d := (hshards d).2 (List.mem_cons_self ..)
    obtain ⟨v₁, hremove, hstocked₁, hshards₁⟩ := hstocked.removeShard hd hshard
    have hkind := hstocked.leads.linkMetadata_join hd.isPlain_shardOf (shard_short hd) hshard
      (by simp)
    have hleft : ∀ d', S.HasShard v₁ d' ↔ shardOf d' ∈ names := by
      intro d'
      rw [hshards₁, hshards, List.mem_cons]
      constructor
      · rintro ⟨hmem, hne⟩
        exact hmem.resolve_left hne
      · intro hmem
        exact ⟨.inr hmem, fun hsame => hn (hsame ▸ hmem)⟩
    obtain ⟨v₂, hrest, hstocked₂, hnone⟩ := ih (s := { s with drive := ⟨v₁, []⟩ }) rfl hstocked₁
      hothers (fun n hn => hnames n (List.mem_cons_of_mem _ hn)) hleft
    refine ⟨v₂, ?_, hstocked₂, hnone⟩
    have hlook : (DiskM.file (Path.join S.path (shardOf d))
        (FileM.reading (·.linkMetadata (Path.join S.path (shardOf d))))).run.run s =
        (.ok .directory, s) := by
      rw [DiskM.run_file, FileM.reading_faultless hfaults, hkind]
      rfl
    have htake : (DiskM.file (Path.join S.path (shardOf d))
        (FileM.removeTree (Path.join S.path (shardOf d)))).run.run s =
        (.ok (), { s with drive := ⟨v₁, []⟩ }) := by
      rw [DiskM.run_file, FileM.removeTree, FileM.writing_faultless hfaults, hremove]
      rfl
    rw [DiskCache.clearNames]
    simp only
    rw [run_bind_ok hlook]
    simp only [Item.isDirectory, if_true]
    rw [run_bind_ok htake, hrest]

theorem Stocked.mem_children_iff {v : Volume} (h : S.Stocked v) (d : String) :
    S.HasShard v d ↔ shardOf d ∈ v.children S.base := by
  rw [Volume.mem_children]
  constructor
  · intro hshard
    rw [hshard]
    rfl
  · intro hsome
    rcases h.shard_none_or (d := d) with hnone | hshard
    · rw [hnone] at hsome
      cases hsome
    · exact hshard

/-- Without a value there is no entry. -/
theorem Settled.empty (h : S.Settled s m)
    (hnone : ∀ d, IsDigest d → S.fileAt s.drive.volume d valueEnding = none) :
    m = fun _ => none := by
  funext d
  rcases hd : m d with _ | p
  · rfl
  · have hdigest := (h.entry d p hd).1
    have hvalue := h.fileAt_value hdigest
    rw [hnone d hdigest, hd] at hvalue
    cases hvalue

/-- Clearing leaves no file of an entry. The index forgets all, unless there is no directory. -/
theorem run_clear (hdir : s.cache.directory = S.path) (hfaults : s.drive.faults = [])
    (hsite : S.Site s.drive.volume) :
    ∃ s', DiskCache.clear.run.run s = (.ok (), s') ∧ s'.drive.faults = [] ∧
      S.Site s'.drive.volume ∧ (∀ d e, S.fileAt s'.drive.volume d e = none) ∧
      (s' = s ∧ s.drive.volume.readDir S.path = .error .notFound ∨
        s'.cache = { s.cache with index := {} }) := by
  have hread := DiskM.run_files_reading hfaults (·.readDir S.path)
  rw [DiskCache.clear, run_bind_ok (run_get s), hdir]
  change ∃ s', ((DiskM.files (FileM.reading (·.readDir S.path))) >>= _).run.run s = _ ∧ _
  rw [run_bind_ok hread]
  cases hsite with
  | missing hmissing =>
    rw [hmissing.readDir]
    exact ⟨s, rfl, hfaults, .missing hmissing, fun d e => hmissing.fileAt, .inl ⟨rfl, rfl⟩⟩
  | stocked hstocked =>
    obtain ⟨v, hclear, hstocked', hshards⟩ := run_clearNames hfaults hstocked hstocked.listed
      (fun n hn => by
        obtain ⟨d, hd, hname, -⟩ := hstocked.mem_children.1 hn
        exact ⟨d, hd, hname⟩) hstocked.mem_children_iff
    rw [hstocked.leads.readDir]
    refine ⟨{ s with cache := { s.cache with index := {} }, drive := ⟨v, []⟩ }, ?_, rfl,
      .stocked hstocked', fun d e => ?_, .inr rfl⟩
    · simp only
      rw [run_bind_ok hclear, DiskM.run_modifyIndex]
    · rcases hfile : S.fileAt v d e with _ | content
      · rfl
      · exact absurd (hstocked'.item?_place_of_fileAt hfile).2 (hshards d)

/-- Without files, and with an empty index, there is no content. -/
theorem settled_none (hdir : s.cache.directory = S.path) (hfaults : s.drive.faults = [])
    (hsite : S.Site s.drive.volume) (hnone : ∀ d e, S.fileAt s.drive.volume d e = none)
    (hindex : s.cache.index = {}) : S.Settled s fun _ => none := by
  refine ⟨hdir, hfaults, hsite, fun d e _ => ?_, fun d p hp => (by cases hp), fun _ => ?_⟩
  · rw [hnone, Content.file]
    simp
  · rw [hindex]
    exact ⟨DiskIndex.exact_empty, fun d => NameMap.get?_empty d⟩

/-- Nothing is left after clearing. -/
theorem Settled.run_clear (h : S.Settled s m) :
    ∃ s', DiskCache.clear.run.run s = (.ok (), s') ∧ S.Settled s' (fun _ => none) ∧
      (s'.cache = s.cache ∨ s'.cache = { s.cache with index := {} }) := by
  obtain ⟨s', hrun, hfaults, hsite, hnone, ⟨rfl, -⟩ | hcache⟩ :=
    Shelf.run_clear h.directory h.faultless h.site
  · exact ⟨s', hrun, h.empty (fun d _ => hnone d _) ▸ h, .inl rfl⟩
  · refine ⟨s', hrun, settled_none ?_ hfaults hsite hnone (by rw [hcache]), .inr hcache⟩
    rw [hcache]
    exact h.directory

end Shelf

end CodeGraph.Cache
