import CodeGraph.Proofs.Cache.Frames
import CodeGraph.Proofs.Volume.Missing

/-!
# What a lookup makes of the files of a key

A lookup trusts a value if there is a sidecar of the current version for its key. Whatever bytes the two
files hold, wherever the paths to them go and whatever the index says, a lookup has one of three outcomes
(`DiskCache.get_decides`). It answers the value and changes nothing. It finds the entry of another key, or
none, and changes nothing. Or it finds something that is no entry, of any key: a sidecar that cannot be
read or is of another version, or one without its value. Then it takes both files away and forgets the
digest. The version is looked at before the key, so an old sidecar of another key goes too.

The files of other digests have other names (`resolve_entryPath_ne`), so they stay as they are.
-/

namespace CodeGraph.Cache

open CodeGraph.Path (IsPlain)
open DiskCache (valueEnding sidecarEnding)

variable {s s' : DiskState} {v : Volume} {c : DiskCache} {key d d' e e' : String}
  {sidecar value content : Option ByteArray}

/-! ## The paths of files of entries -/

/-- The path of a file of an entry leads to a place of its name, if it leads anywhere. -/
theorem exists_of_resolve_entryPath (hd : IsDigest d) (he : e ∈ endings) {r : List String}
    {i : Option Item} (h : v.resolve false (c.entryPath (shardOf d) d e) = .ok (r, i)) :
    ∃ front, r = front ++ [d ++ e] :=
  Volume.exists_of_resolve_name (hd.isPlain_append he) h

/-- The paths of different files of entries lead to different places. -/
theorem resolve_entryPath_ne (hd : IsDigest d) (hd' : IsDigest d') (he : e ∈ endings)
    (he' : e' ∈ endings) (hne : d ≠ d' ∨ e ≠ e') (r : List String) (i j : Option Item)
    (h : v.resolve false (c.entryPath (shardOf d) d e) = .ok (r, i)) :
    v.resolve false (c.entryPath (shardOf d') d' e') ≠ .ok (r, j) := by
  intro h'
  obtain ⟨front, rfl⟩ := exists_of_resolve_entryPath hd he h
  obtain ⟨front', heq⟩ := exists_of_resolve_entryPath hd' he' h'
  obtain ⟨-, hname⟩ := List.append_inj' heq rfl
  obtain ⟨hdigest, hending⟩ := hd.append_inj hd' (List.singleton_inj.1 hname)
  exact hne.elim (fun h => h hdigest) fun h => h hending

theorem sidecarPath_eq (c : DiskCache) (key : String) :
    c.sidecarPath key = c.entryPath (shardOf (keyDigest key)) (keyDigest key) sidecarEnding := by
  rw [DiskCache.sidecarPath, (isDigest_keyDigest key).shard?_eq]
  rfl

theorem valuePath_eq (c : DiskCache) (key : String) :
    c.valuePath key = c.entryPath (shardOf (keyDigest key)) (keyDigest key) valueEnding := by
  rw [DiskCache.valuePath, (isDigest_keyDigest key).shard?_eq]
  rfl

theorem run_entryPathM_eq (hd : IsHex d) (s : DiskState) (e : String) :
    (DiskCache.entryPathM d e).run.run s = (.ok (s.cache.entryPath (shardOf d) d e), s) := by
  rw [DiskCache.entryPathM, hd.shard?_eq]
  rfl

/-! ## Single files -/

section Run

variable (hfaults : s.drive.faults = [])

include hfaults

theorem run_removeIfPresent_fileAt {path : String} (h : s.drive.volume.FileAt path content) :
    (DiskCache.removeIfPresent path).run.run s =
      (.ok (), ⟨s.cache, ⟨s.drive.volume.dropFile path, []⟩⟩) := by
  rw [DiskCache.removeIfPresent, run_bind_ok (DiskM.run_files _ s), FileM.removeFile,
    FileM.writing_faultless hfaults, h.removeFile]
  rcases content with _ | b
  · rw [h.dropFile_of_none, ← hfaults]
    rfl
  · rfl

theorem run_removeFiles_fileAt (hd : IsHex d)
    (hvalue : s.drive.volume.FileAt (s.cache.entryPath (shardOf d) d valueEnding) value)
    (hsidecar : (s.drive.volume.dropFile (s.cache.entryPath (shardOf d) d valueEnding)).FileAt
      (s.cache.entryPath (shardOf d) d sidecarEnding) sidecar) :
    (DiskCache.removeFiles d).run.run s =
      (.ok (), ⟨s.cache, ⟨(s.drive.volume.dropFile (s.cache.entryPath (shardOf d) d
        valueEnding)).dropFile (s.cache.entryPath (shardOf d) d sidecarEnding), []⟩⟩) := by
  rw [DiskCache.removeFiles, run_bind_ok (run_entryPathM_eq hd s valueEnding),
    run_bind_ok (run_removeIfPresent_fileAt hfaults hvalue),
    run_bind_ok (run_entryPathM_eq hd _ sidecarEnding)]
  exact run_removeIfPresent_fileAt rfl hsidecar

/-- What the bytes of a sidecar are found to be. -/
def sidecarRead : Option ByteArray → DiskCache.SidecarRead
  | none => .missing
  | some b =>
    match Sidecar.decode? b with
    | some m => .found m
    | none => .corrupt

theorem run_readSidecar_fileAt {path : String} (h : s.drive.volume.FileAt path content) :
    (DiskCache.readSidecar path).run.run s = (.ok (sidecarRead content), s) := by
  rw [DiskCache.readSidecar]
  refine (run_bind_ok (DiskM.run_files_reading hfaults _)).trans ?_
  rw [h.readFile]
  rcases content with _ | b
  · rfl
  · simp only [Option.elim_some, sidecarRead]
    rcases Sidecar.decode? b with _ | m
    · rfl
    · rfl

end Run

/-! ## What the files are -/

/-- A sidecar of the current version. -/
def Recorded (sidecar : Option ByteArray) (m : Sidecar) : Prop :=
  ∃ b, sidecar = some b ∧ Sidecar.decode? b = some m ∧ m.version = Sidecar.currentVersion

/-- The sidecar of the key. -/
def Valid (key : String) (sidecar : Option ByteArray) : Prop :=
  ∃ m, Recorded sidecar m ∧ m.key = key

/-- No sidecar, or that of another key. -/
def Unrelated (key : String) (sidecar : Option ByteArray) : Prop :=
  sidecar = none ∨ ∃ m, Recorded sidecar m ∧ m.key ≠ key

/-- A sidecar that is none, or is of another version. -/
def Unusable (sidecar : Option ByteArray) : Prop :=
  ∃ b, sidecar = some b ∧ ∀ m, Sidecar.decode? b = some m → m.version ≠ Sidecar.currentVersion

theorem sidecar_cases (key : String) (sidecar : Option ByteArray) :
    Valid key sidecar ∨ Unrelated key sidecar ∨ Unusable sidecar := by
  rcases sidecar with _ | b
  · exact .inr (.inl (.inl rfl))
  rcases hdecode : Sidecar.decode? b with _ | m
  · exact .inr (.inr ⟨b, rfl, fun m hm => by rw [hdecode] at hm; cases hm⟩)
  by_cases hversion : m.version = Sidecar.currentVersion
  · by_cases hkey : m.key = key
    · exact .inl ⟨m, ⟨b, rfl, hdecode, hversion⟩, hkey⟩
    · exact .inr (.inl (.inr ⟨m, ⟨b, rfl, hdecode, hversion⟩, hkey⟩))
  · refine .inr (.inr ⟨b, rfl, fun m' hm' => ?_⟩)
    rw [hdecode] at hm'
    cases hm'
    exact hversion

/-- The files are no entry, of any key. -/
def Broken (key : String) (sidecar value : Option ByteArray) : Prop :=
  Unusable sidecar ∨ Valid key sidecar ∧ value = none

/-- A state whose cache has forgotten the digest of a key, without the two files of the key. -/
def DiskState.without (s : DiskState) (key : String) : DiskState where
  cache := { s.cache with index := s.cache.index.remove (keyDigest key) }
  drive := ⟨(s.drive.volume.dropFile (s.cache.valuePath key)).dropFile (s.cache.sidecarPath key), []⟩

theorem DiskState.volume_without (s : DiskState) (key : String) :
    (s.without key).drive.volume =
      (s.drive.volume.dropFile (s.cache.valuePath key)).dropFile (s.cache.sidecarPath key) := by
  simp only [without]

theorem DiskState.index_without (s : DiskState) (key : String) :
    (s.without key).cache.index = s.cache.index.remove (keyDigest key) := by
  simp only [without]

theorem DiskState.counted?_without (s : DiskState) (key d : String) :
    (s.without key).counted? d = if d = keyDigest key then none else s.counted? d := by
  simp only [counted?, without, DiskIndex.get?_remove]

/-! ## The decision -/

namespace DiskCache

section Get

variable (hfaults : s.drive.faults = []) (htree : s.drive.volume.IsTree)
  (hsidecar : s.drive.volume.FileAt (s.cache.sidecarPath key) sidecar)
  (hvalue : s.drive.volume.FileAt (s.cache.valuePath key) value)

include htree hsidecar

/-- The sidecar is where it was when the value has been taken away. -/
theorem fileAt_sidecar_dropFile :
    (s.drive.volume.dropFile (s.cache.valuePath key)).FileAt (s.cache.sidecarPath key) sidecar := by
  refine htree.fileAt_dropFile hsidecar ?_
  rw [sidecarPath_eq, valuePath_eq]
  exact resolve_entryPath_ne (isDigest_keyDigest key) (isDigest_keyDigest key) valueEnding_mem
    sidecarEnding_mem (.inr (by decide))

include hfaults hvalue

theorem run_removeDigest_fileAt :
    (removeDigest (keyDigest key)).run.run s = (.ok (), s.without key) := by
  have hd := isDigest_keyDigest key
  have hsidecar' := fileAt_sidecar_dropFile htree hsidecar
  rw [sidecarPath_eq] at hsidecar'
  rw [valuePath_eq] at hvalue hsidecar'
  rw [removeDigest, run_bind_ok (DiskM.run_modifyIndex _ s), DiskState.without, valuePath_eq,
    sidecarPath_eq]
  -- The digest is left open so that nothing computes it.
  generalize keyDigest key = d at *
  exact run_removeFiles_fileAt (s := ⟨{ s.cache with index := s.cache.index.remove d }, s.drive⟩)
    hfaults hd.isHex hvalue hsidecar'

omit htree hvalue in
/-- A lookup goes on with what it finds the sidecar to be. -/
theorem run_readSidecar_key {α : Type} (f : SidecarRead → DiskM α) :
    (do f (← readSidecar (← entryPathM (keyDigest key) sidecarEnding))).run.run s =
      (f (sidecarRead sidecar)).run.run s := by
  rw [run_bind_ok (run_entryPathM_eq (isDigest_keyDigest key).isHex s sidecarEnding), ← sidecarPath_eq,
    run_bind_ok (run_readSidecar_fileAt hfaults hsidecar)]

omit htree hvalue in
theorem run_get_unrelated (h : Unrelated key sidecar) : (get key).run.run s = (.ok none, s) := by
  refine (run_readSidecar_key hfaults hsidecar _).trans ?_
  rcases h with rfl | ⟨m, ⟨b, rfl, hdecode, hversion⟩, hkey⟩
  · rfl
  · simp only [sidecarRead, hdecode, hversion, ne_eq, not_true_eq_false, if_false, hkey,
      not_false_eq_true, if_true]
    rfl

theorem run_get_broken (h : Broken key sidecar value) :
    (get key).run.run s = (.ok none, s.without key) := by
  have hgone : (do removeDigest (keyDigest key); return none : DiskM (Option ByteArray)).run.run s =
      (.ok none, s.without key) :=
    run_bind_ok (run_removeDigest_fileAt hfaults htree hsidecar hvalue)
  refine (run_readSidecar_key hfaults hsidecar _).trans ?_
  rcases h with ⟨b, rfl, hversion⟩ | ⟨⟨m, ⟨b, rfl, hdecode, hversion⟩, hkey⟩, rfl⟩
  · simp only [sidecarRead]
    rcases hdecode : Sidecar.decode? b with _ | m
    · exact hgone
    · simp only [hversion m hdecode, ne_eq, not_false_eq_true, if_true]
      exact hgone
  · simp only [sidecarRead, hdecode, hversion, hkey, ne_eq, not_true_eq_false, if_false]
    rw [run_bind_ok (run_entryPathM_eq (isDigest_keyDigest key).isHex s valueEnding), ← valuePath_eq]
    refine (run_bind_ok (DiskM.run_files_reading hfaults _)).trans ?_
    rw [hvalue.readFile, Option.elim_none]
    exact hgone

omit htree in
theorem run_get_valid {bytes : ByteArray} (h : Valid key sidecar) (hbytes : value = some bytes) :
    (get key).run.run s = (.ok (some bytes), s) := by
  obtain ⟨m, ⟨b, rfl, hdecode, hversion⟩, hkey⟩ := h
  refine (run_readSidecar_key hfaults hsidecar _).trans ?_
  simp only [sidecarRead, hdecode, hversion, hkey, ne_eq, not_true_eq_false, if_false]
  rw [run_bind_ok (run_entryPathM_eq (isDigest_keyDigest key).isHex s valueEnding), ← valuePath_eq]
  refine (run_bind_ok (DiskM.run_files_reading hfaults _)).trans ?_
  rw [hvalue.readFile, hbytes]
  rfl

end Get

/-- What a lookup answers and what it leaves behind, told from the bytes of the two files. -/
structure Decides (key : String) (sidecar value : Option ByteArray) (s : DiskState)
    (answer : Option ByteArray) (s' : DiskState) : Prop where
  answer : ∀ bytes, answer = some bytes ↔ Valid key sidecar ∧ value = some bytes
  /-- What is no entry goes, and is not counted. -/
  broken : Broken key sidecar value →
    s'.drive.volume.FileAt (s.cache.sidecarPath key) none ∧
      s'.drive.volume.FileAt (s.cache.valuePath key) none ∧ s'.counted? (keyDigest key) = none
  /-- Its size does not count to the total either. -/
  forgotten : Broken key sidecar value → s'.cache.index = s.cache.index.remove (keyDigest key)
  /-- Nothing else makes a lookup change anything. -/
  kept : ¬ Broken key sidecar value → s' = s
  counted : ∀ d, d ≠ keyDigest key → s'.counted? d = s.counted? d
  /-- The files of other digests stay. -/
  others : ∀ d e, IsDigest d → d ≠ keyDigest key → e ∈ endings →
    (s'.drive.volume.linkMetadata (s.cache.entryPath (shardOf d) d e)).toOption =
      (s.drive.volume.linkMetadata (s.cache.entryPath (shardOf d) d e)).toOption
  /-- Nothing else is gone either. -/
  elsewhere : ∀ q, s'.drive.volume.item? q = s.drive.volume.item? q ∨
    ∃ b, s.drive.volume.find false (s.cache.sidecarPath key) = .ok (q, .file b) ∨
      s.drive.volume.find false (s.cache.valuePath key) = .ok (q, .file b)

theorem Decides.of_kept {answer : Option ByteArray}
    (hanswer : ∀ bytes, answer = some bytes ↔ Valid key sidecar ∧ value = some bytes)
    (hbroken : ¬ Broken key sidecar value) : Decides key sidecar value s answer s :=
  ⟨hanswer, fun h => absurd h hbroken, fun h => absurd h hbroken, fun _ => rfl, fun _ _ => rfl,
    fun _ _ _ _ _ => rfl, fun _ => .inl rfl⟩

/-- Taking the two files of a key away leaves those of other digests. -/
theorem decides_without (htree : s.drive.volume.IsTree)
    (hsidecar : s.drive.volume.FileAt (s.cache.sidecarPath key) sidecar)
    (hvalue : s.drive.volume.FileAt (s.cache.valuePath key) value)
    (hbroken : Broken key sidecar value) : Decides key sidecar value s none (s.without key) := by
  have hd := isDigest_keyDigest key
  have htree' := htree.dropFile (s.cache.valuePath key)
  refine ⟨?_, fun _ => ⟨?_, ?_, ?_⟩, fun _ => s.index_without key, fun h => absurd hbroken h, ?_, ?_,
    ?_⟩
  · intro bytes
    refine ⟨nofun, ?_⟩
    rintro ⟨⟨m, ⟨b, rfl, hdecode, hversion⟩, -⟩, rfl⟩
    rcases hbroken with ⟨b, heq, hother⟩ | ⟨-, heq⟩
    · cases heq
      exact absurd hversion (hother m hdecode)
    · cases heq
  · rw [s.volume_without]
    exact htree'.fileAt_dropFile_self (fileAt_sidecar_dropFile htree hsidecar)
  · rw [s.volume_without]
    refine htree'.fileAt_dropFile (htree.fileAt_dropFile_self hvalue) ?_
    rw [sidecarPath_eq, valuePath_eq]
    exact resolve_entryPath_ne hd hd sidecarEnding_mem valueEnding_mem (.inr (by decide))
  · rw [s.counted?_without, if_pos rfl]
  · intro d hne
    rw [s.counted?_without, if_neg hne]
  · intro d e hd' hne he
    rw [s.volume_without]
    refine (htree'.toOption_linkMetadata_dropFile ?_).trans
      (htree.toOption_linkMetadata_dropFile ?_)
    · rw [sidecarPath_eq]
      exact resolve_entryPath_ne hd hd' sidecarEnding_mem he (.inl hne.symm)
    · rw [valuePath_eq]
      exact resolve_entryPath_ne hd hd' valueEnding_mem he (.inl hne.symm)
  · intro q
    rw [s.volume_without]
    rcases htree'.item?_dropFile (s.cache.sidecarPath key) q with hsame | ⟨b, hfind⟩
    · rcases htree.item?_dropFile (s.cache.valuePath key) q with hsame' | ⟨b, hfind⟩
      · exact .inl (hsame.trans hsame')
      · exact .inr ⟨b, .inr hfind⟩
    · exact .inr ⟨b, .inl (Volume.find_within (Volume.within_dropFile ..) hfind)⟩

/-- A directory with the two files of a digest in it. -/
def entryVolume (d : String) (sidecar value : ByteArray) : Volume :=
  ⟨[(["cache"], .directory), (["cache", shardOf d], .directory),
    (["cache", shardOf d, d ++ sidecarEnding], .file sidecar),
    (["cache", shardOf d, d ++ valueEnding], .file value)], []⟩

section Entry

variable {b b' : ByteArray} (hd : IsDigest d)

theorem item?_entryVolume_sidecar (d : String) (b b' : ByteArray) :
    (entryVolume d b b').item? ["cache", shardOf d, d ++ sidecarEnding] = some (.file b) := by
  simp [entryVolume, Volume.item?, List.lookup_cons]

include hd

theorem item?_entryVolume_value (b b' : ByteArray) :
    (entryVolume d b b').item? ["cache", shardOf d, d ++ valueEnding] = some (.file b') := by
  have hne : (d ++ valueEnding == d ++ sidecarEnding) = false :=
    beq_eq_false_iff_ne.2 fun h => absurd (hd.append_inj hd h).2 (by decide)
  simp [entryVolume, Volume.item?, List.lookup_cons, hne]

theorem unlinked_entryVolume : (entryVolume d b b').Unlinked := by
  have hcache : Path.IsPlain "cache" := by decide
  refine .of_entries rfl fun e he => ?_
  simp only [entryVolume, List.mem_cons, List.not_mem_nil, or_false] at he
  rcases he with rfl | rfl | rfl | rfl
  · exact ⟨[], "cache", rfl, rfl, hcache, by simp⟩
  · exact ⟨["cache"], shardOf d, rfl, by simp [entryVolume, Volume.item?], hd.isPlain_shardOf, by simp⟩
  · exact ⟨["cache", shardOf d], d ++ sidecarEnding, rfl,
      by simp [entryVolume, Volume.item?, List.lookup_cons], hd.isPlain_append sidecarEnding_mem,
      by simp⟩
  · exact ⟨["cache", shardOf d], d ++ valueEnding, rfl,
      by simp [entryVolume, Volume.item?, List.lookup_cons], hd.isPlain_append valueEnding_mem, by simp⟩

theorem shard_short_cache : (Path.join "cache" (shardOf d)).utf8ByteSize ≤ Volume.longestPath := by
  refine Nat.le_trans (Path.utf8ByteSize_join_le isPlain_cache.ne_empty hd.isPlain_shardOf) ?_
  rw [hd.utf8ByteSize_shardOf]
  decide

theorem file_short_cache (he : e ∈ endings) :
    (filePath "cache" d e).utf8ByteSize ≤ Volume.longestPath :=
  Nat.le_trans (utf8ByteSize_filePath_le isPlain_cache.ne_empty hd he) (by decide)

theorem fileAt_entryVolume {bytes : ByteArray} {c : DiskCache} (hc : c.directory = "cache")
    (he : e ∈ endings)
    (hitem : (entryVolume d b b').item? ["cache", shardOf d, d ++ e] = some (.file bytes)) :
    (entryVolume d b b').FileAt (c.entryPath (shardOf d) d e) (some bytes) := by
  have hlead : (entryVolume d b b').LeadsTo "cache" ["cache"] :=
    Volume.leadsTo_name rfl isPlain_cache rfl
  have hsub : (entryVolume d b b').LeadsTo (Path.join "cache" (shardOf d)) ["cache", shardOf d] :=
    hlead.join hd.isPlain_shardOf (shard_short_cache hd)
      (by simp [entryVolume, Volume.item?, List.lookup_cons])
  rw [entryPath, hc]
  exact .of_find (hsub.find_join (hd.isPlain_append he) (file_short_cache hd he) hitem (by simp) false)

end Entry

/-- **A lookup trusts valid entries only.** Each of the two files of the key may be absent or hold any
bytes, and the index may say anything: the answer is the value if the sidecar is a current one of the key
and the value is there. What is no entry goes and is no longer counted, and otherwise nothing changes. -/
theorem get_decides (hfaults : s.drive.faults = []) (htree : s.drive.volume.IsTree)
    (hsidecar : s.drive.volume.FileAt (s.cache.sidecarPath key) sidecar)
    (hvalue : s.drive.volume.FileAt (s.cache.valuePath key) value) :
    ∃ answer s', (get key).run.run s = (.ok answer, s') ∧ Decides key sidecar value s answer s' := by
  by_cases hbroken : Broken key sidecar value
  · exact ⟨none, s.without key, run_get_broken hfaults htree hsidecar hvalue hbroken,
      decides_without htree hsidecar hvalue hbroken⟩
  rcases sidecar_cases key sidecar with hvalid | hunrelated | hunusable
  · rcases value with _ | bytes
    · exact absurd (.inr ⟨hvalid, rfl⟩) hbroken
    · refine ⟨some bytes, s, run_get_valid hfaults hsidecar hvalue hvalid rfl,
        .of_kept (fun bytes' => ?_) hbroken⟩
      exact ⟨fun h => ⟨hvalid, h⟩, fun h => h.2⟩
  · refine ⟨none, s, run_get_unrelated hfaults hsidecar hunrelated, .of_kept (fun bytes => ?_) hbroken⟩
    refine ⟨nofun, ?_⟩
    rintro ⟨⟨m, ⟨b, rfl, hdecode, -⟩, hkey⟩, -⟩
    rcases hunrelated with heq | ⟨m', ⟨b', heq, hdecode', -⟩, hkey'⟩
    · cases heq
    · cases heq
      rw [hdecode] at hdecode'
      cases hdecode'
      exact absurd hkey hkey'
  · exact absurd (.inl hunusable) hbroken

/-- A value goes with a sidecar that cannot be read. -/
theorem get_decides_junk : ∃ s',
    (get "k").run.run ⟨DiskCache.new ⟨"cache", 10⟩,
        ⟨entryVolume (keyDigest "k") "junk".toUTF8 "value".toUTF8, []⟩⟩ = (.ok none, s') ∧
      s'.drive.volume.FileAt ((DiskCache.new ⟨"cache", 10⟩).valuePath "k") none := by
  have hjunk : Sidecar.decode? "junk".toUTF8 = none := by decide
  have hunusable : Unusable (some "junk".toUTF8) := by
    refine ⟨_, rfl, fun m hm => ?_⟩
    rw [hjunk] at hm
    cases hm
  -- The key is left open so that nothing computes its digest.
  generalize "k" = key
  have hd := isDigest_keyDigest key
  have hsidecar := fileAt_entryVolume hd (c := DiskCache.new ⟨"cache", 10⟩) rfl sidecarEnding_mem
    (item?_entryVolume_sidecar (keyDigest key) "junk".toUTF8 "value".toUTF8)
  have hvalue := fileAt_entryVolume hd (c := DiskCache.new ⟨"cache", 10⟩) rfl valueEnding_mem
    (item?_entryVolume_value hd "junk".toUTF8 "value".toUTF8)
  rw [← sidecarPath_eq] at hsidecar
  rw [← valuePath_eq] at hvalue
  obtain ⟨answer, s', hrun, hdecides⟩ := get_decides
    (s := ⟨DiskCache.new ⟨"cache", 10⟩, ⟨entryVolume (keyDigest key) "junk".toUTF8 "value".toUTF8, []⟩⟩)
    rfl (unlinked_entryVolume hd).toIsTree hsidecar hvalue
  obtain ⟨-, hgone, -⟩ := hdecides.broken (.inl hunusable)
  rcases answer with _ | bytes
  · exact ⟨s', hrun, hgone⟩
  · obtain ⟨⟨m, ⟨b, heq, hdecode, -⟩, -⟩, -⟩ := (hdecides.answer bytes).1 rfl
    cases heq
    rw [hjunk] at hdecode
    cases hdecode

end DiskCache

end CodeGraph.Cache
