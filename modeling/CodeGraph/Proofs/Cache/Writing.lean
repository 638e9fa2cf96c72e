import CodeGraph.Proofs.Cache.Programs

/-!
# Writing an entry

A file of an entry is written under another name and moved to its place, so in its place there is
what was there before or all of what is written (`Shelf.wrote_writeWhole`), whatever faults the
operations meet; and both files are written if they meet none (`Shelf.wrote_writeEntry`).
-/

namespace CodeGraph.Cache

open DiskCache (valueEnding sidecarEnding unfinishedEnding)

namespace Shelf

variable {S : Shelf}

/-- A disk layer on a shelf that has the directory of a digest. -/
structure Open (S : Shelf) (s : DiskState) (d : String) : Prop where
  directory : s.cache.directory = S.path
  stocked : S.Stocked s.drive.volume
  shard : S.HasShard s.drive.volume d

/-- The contents after a file has been written under another name and moved to its place. -/
def filesAfter (S : Shelf) (v : Volume) (d e : String) (content : ByteArray) (d' e' : String) :
    Option ByteArray :=
  if d' = d ∧ e' = e then some content
  else if d' = d ∧ e' = e ++ unfinishedEnding then none
  else S.fileAt v d' e'

/-- What is left by an operation that writes a file and may fail: in the place of the file is what
was there before or what is written, and elsewhere what was there. -/
structure Wrote (S : Shelf) (s s' : DiskState) (d e : String) (content : ByteArray) : Prop where
  cache : s'.cache = s.cache
  left : S.Open s' d
  file : ∀ d' e', IsDigest d' → ¬ (d' = d ∧ e' = e ++ unfinishedEnding) →
    S.fileAt s'.drive.volume d' e' = S.fileAt s.drive.volume d' e' ∨
      d' = d ∧ e' = e ∧ S.fileAt s'.drive.volume d' e' = some content

theorem Open.changed {s s' : DiskState} {d d' e : String} {content : Option ByteArray}
    (h : S.Open s d) (hcache : s'.cache = s.cache)
    (hchanged : S.Changed s.drive.volume s'.drive.volume d' e content) : S.Open s' d :=
  ⟨hcache ▸ h.directory, hchanged.stocked, hchanged.shard d h.shard⟩

theorem Changed.file_of_ne {v v' : Volume} {d e : String} {content : Option ByteArray}
    (h : S.Changed v v' d e content) {d' e' : String} (hd' : IsDigest d')
    (hne : ¬ (d' = d ∧ e' = e)) : S.fileAt v' d' e' = S.fileAt v d' e' := by
  rw [h.file d' e' hd', if_neg hne]

/-! ## Single operations -/

section Operations

variable {s : DiskState} {d e : String} (h : S.Open s d) (hd : IsDigest d)

include h hd

/-- Writing a file ends with the content in it, or fails and changes no other file. -/
theorem run_writeFile (he : e ∈ endings) (path : String) (content : ByteArray) :
    let r := (DiskM.file path (FileM.writeFile (filePath S.path d e) content)).run.run s
    r.2.cache = s.cache ∧
      (r.1 = .ok () ∧ S.Changed s.drive.volume r.2.drive.volume d e (some content) ∨
        (∃ err, r.1 = .error err) ∧ (r.2.drive.volume = s.drive.volume ∨
          ∃ torn, S.Changed s.drive.volume r.2.drive.volume d e torn)) ∧
      (s.drive.faults = [] → r.1 = .ok () ∧ r.2.drive.faults = []) := by
  obtain ⟨v, hwrite, hchanged⟩ := h.stocked.writeFile hd he h.shard content
  intro r
  refine ⟨by simp [r, DiskM.run_file], ?_, fun hfaults => ?_⟩
  · simp only [r, DiskM.run_file]
    rcases FileM.writing_cases (·.writeFile (filePath S.path d e) content)
        (fun n v => (v.writeFile (filePath S.path d e) (content.extract 0 n)).toOption.getD v)
        s.drive with ⟨v', hwrite', hr, hv⟩ | ⟨err, hr, hv | ⟨n, hv⟩⟩
    · rw [hwrite] at hwrite'
      cases hwrite'
      left
      rw [FileM.writeFile, hr, hv]
      exact ⟨rfl, hchanged⟩
    · right
      rw [FileM.writeFile, hr, hv]
      exact ⟨⟨_, rfl⟩, .inl rfl⟩
    · right
      obtain ⟨v', hwrite', hchanged'⟩ := h.stocked.writeFile hd he h.shard (content.extract 0 n)
      rw [hwrite'] at hv
      rw [FileM.writeFile, hr, hv]
      exact ⟨⟨_, rfl⟩, .inr ⟨_, hchanged'⟩⟩
  · simp only [r, DiskM.run_file, FileM.writeFile, FileM.writing_faultless hfaults, hwrite]
    exact ⟨rfl, trivial⟩

/-- Moving a file to the place of another one does that or nothing. -/
theorem run_rename {e' : String} (he : e ∈ endings) (he' : e' ∈ endings) (hne : e ≠ e')
    {content : ByteArray} (hfile : S.fileAt s.drive.volume d e = some content) (path : String) :
    let r := (DiskM.file path
      (FileM.rename (filePath S.path d e) (filePath S.path d e'))).run.run s
    r.2.cache = s.cache ∧
      (r.1 = .ok () ∧ (∃ v, S.Changed s.drive.volume v d e none ∧
          S.Changed v r.2.drive.volume d e' (some content)) ∨
        (∃ err, r.1 = .error err) ∧ r.2.drive.volume = s.drive.volume) ∧
      (s.drive.faults = [] → r.1 = .ok () ∧ r.2.drive.faults = []) := by
  obtain ⟨v, v', hrename, hremoved, hput⟩ := h.stocked.rename hd he he' hne hfile
  intro r
  refine ⟨by simp [r, DiskM.run_file], ?_, fun hfaults => ?_⟩
  · simp only [r, DiskM.run_file]
    rcases FileM.writing_cases (·.rename (filePath S.path d e) (filePath S.path d e'))
        (fun _ v => v) s.drive with ⟨v'', hrename', hr, hv⟩ | ⟨err, hr, hv⟩
    · rw [hrename] at hrename'
      cases hrename'
      left
      rw [FileM.rename, hr, hv]
      exact ⟨rfl, v, hremoved, hput⟩
    · right
      rw [FileM.rename, hr]
      refine ⟨⟨_, rfl⟩, ?_⟩
      rcases hv with hv | ⟨n, hv⟩ <;> exact hv
  · simp only [r, DiskM.run_file, FileM.rename, FileM.writing_faultless hfaults, hrename]
    exact ⟨rfl, trivial⟩

end Operations

/-! ## Whole files -/

theorem shardPath_ne_empty (dir : String) {d : String} (hd : IsDigest d) :
    Path.join dir (shardOf d) ≠ "" := by
  obtain ⟨front, hjoin⟩ := Path.exists_join_eq dir (shardOf d)
  rw [hjoin]
  intro hempty
  have hsize := congrArg String.utf8ByteSize hempty
  rw [String.utf8ByteSize_append, hd.utf8ByteSize_shardOf] at hsize
  simp at hsize

theorem filePath_append (dir : String) {d e x : String} (hd : IsDigest d)
    (he : e ∈ endings) (hx : e ++ x ∈ endings) :
    filePath dir d e ++ x = filePath dir d (e ++ x) := by
  have hne := shardPath_ne_empty dir hd
  have hassoc : d ++ (e ++ x) = d ++ e ++ x := (String.append_assoc ..).symm
  rw [filePath, filePath, Path.join_plain hne (hd.isPlain_append he),
    Path.join_plain hne (hd.isPlain_append hx), hassoc]
  split <;> simp [String.append_assoc]

section Whole

variable {s : DiskState} {d e : String} {content : ByteArray}

/-- As long as only the file is changed that is written to first, nothing is lost. -/
theorem Wrote.of_draft {s' : DiskState} (h : S.Open s d) (hcache : s'.cache = s.cache)
    (hvolume : s'.drive.volume = s.drive.volume ∨
      ∃ draft, S.Changed s.drive.volume s'.drive.volume d (e ++ unfinishedEnding) draft) :
    S.Wrote s s' d e content := by
  rcases hvolume with hsame | ⟨draft, hchanged⟩
  · exact ⟨hcache, ⟨hcache ▸ h.directory, hsame ▸ h.stocked, hsame ▸ h.shard⟩,
      fun _ _ _ _ => .inl (by rw [hsame])⟩
  · exact ⟨hcache, h.changed hcache hchanged,
      fun _ _ hd' hother => .inl (hchanged.file_of_ne hd' hother)⟩

theorem filesAfter_of_changed {v v₁ v₂ v₃ : Volume}
    (hwritten : S.Changed v v₁ d (e ++ unfinishedEnding) (some content))
    (hremoved : S.Changed v₁ v₂ d (e ++ unfinishedEnding) none)
    (hput : S.Changed v₂ v₃ d e (some content)) {d' e' : String} (hd' : IsDigest d') :
    S.fileAt v₃ d' e' = S.filesAfter v d e content d' e' := by
  rw [hput.file d' e' hd', hremoved.file d' e' hd', hwritten.file d' e' hd', filesAfter]
  split
  · rfl
  · split <;> rfl

theorem Wrote.of_filesAfter {s' : DiskState} (hcache : s'.cache = s.cache) (hopen : S.Open s' d)
    (hfile : ∀ d' e', IsDigest d' →
      S.fileAt s'.drive.volume d' e' = S.filesAfter s.drive.volume d e content d' e') :
    S.Wrote s s' d e content := by
  refine ⟨hcache, hopen, fun d' e' hd' hother => ?_⟩
  rw [hfile d' e' hd', filesAfter]
  split
  · next hsame => exact .inr ⟨hsame.1, hsame.2, rfl⟩
  · exact .inl rfl

/-- A file is written whole or not at all, and the one it is written to first is gone if all goes
well. -/
theorem wrote_writeWhole (h : S.Open s d) (hd : IsDigest d) (he : e ∈ endings)
    (hdraft : e ++ unfinishedEnding ∈ endings) (hne : e ++ unfinishedEnding ≠ e)
    (content : ByteArray) :
    let r := (DiskCache.writeWhole (filePath S.path d e) content).run.run s
    S.Wrote s r.2 d e content ∧
      (r.1 = .ok () → ∀ d' e', IsDigest d' → S.fileAt r.2.drive.volume d' e' =
        S.filesAfter s.drive.volume d e content d' e') ∧
      (s.drive.faults = [] → r.1 = .ok () ∧ r.2.drive.faults = []) := by
  rw [DiskCache.writeWhole, filePath_append S.path hd he hdraft]
  obtain ⟨hcache, hwrite, hfaults⟩ := run_writeFile h hd hdraft
    (filePath S.path d (e ++ unfinishedEnding)) content
  rcases hrun : (DiskM.file (filePath S.path d (e ++ unfinishedEnding))
    (FileM.writeFile (filePath S.path d (e ++ unfinishedEnding)) content)).run.run s with ⟨r₁, s₁⟩
  rw [hrun] at hcache hwrite hfaults
  obtain ⟨rfl, hwritten⟩ | ⟨⟨err, rfl⟩, hvolume⟩ := hwrite
  · have hopen := h.changed hcache hwritten
    have hcontent : S.fileAt s₁.drive.volume d (e ++ unfinishedEnding) = some content := by
      rw [hwritten.file d _ hd, if_pos ⟨rfl, rfl⟩]
    obtain ⟨hcache', hrename, hfaults'⟩ :=
      run_rename hopen hd hdraft he hne hcontent (filePath S.path d e)
    rw [run_bind_ok hrun]
    rcases hrun' : (DiskM.file (filePath S.path d e) (FileM.rename
      (filePath S.path d (e ++ unfinishedEnding)) (filePath S.path d e))).run.run s₁ with ⟨r₂, s₂⟩
    rw [hrun'] at hcache' hrename hfaults'
    obtain ⟨rfl, v, hremoved, hput⟩ | ⟨⟨err, rfl⟩, hsame⟩ := hrename
    · have hfile : ∀ d' e', IsDigest d' →
          S.fileAt s₂.drive.volume d' e' = S.filesAfter s.drive.volume d e content d' e' :=
        fun _ _ hd' => filesAfter_of_changed hwritten hremoved hput hd'
      have hleft : S.Open s₂ d :=
        ⟨by rw [hcache', hcache]; exact h.directory, hput.stocked,
          hput.shard d (hremoved.shard d hopen.shard)⟩
      exact ⟨.of_filesAfter (hcache'.trans hcache) hleft hfile, fun _ => hfile,
        fun hf => hfaults' (hfaults hf).2⟩
    · refine ⟨.of_draft h (hcache'.trans hcache) (.inr ⟨some content, ?_⟩),
        fun hok => (by cases hok), fun hf => (by cases (hfaults' (hfaults hf).2).1)⟩
      rw [hsame]
      exact hwritten
  · rw [run_bind_error hrun]
    exact ⟨.of_draft h hcache hvolume, fun hok => (by cases hok),
      fun hf => (by cases (hfaults hf).1)⟩

end Whole

/-! ## Entries -/

/-- What is left by an operation that writes an entry and may fail: the old value or the new one, and
the values of all others. -/
structure Replaced (S : Shelf) (v v' : Volume) (d : String) (content : ByteArray) : Prop where
  site : S.Site v'
  value : ∀ d' c, IsDigest d' → S.fileAt v' d' valueEnding = some c →
    S.fileAt v d' valueEnding = some c ∨ d' = d ∧ c = content

/-- The contents after both files of an entry have been written. -/
def entryAfter (S : Shelf) (v : Volume) (d : String) (content : ByteArray) (m : Sidecar)
    (d' e' : String) : Option ByteArray :=
  if d' = d then
    if e' = valueEnding then some content
    else if e' = sidecarEnding then some m.encode
    else if e' ∈ endings then none
    else S.fileAt v d' e'
  else S.fileAt v d' e'

section Entry

variable {s : DiskState} {d : String}

/-- The directory of a digest is made, or nothing is done. -/
theorem run_makeDirs (hdir : s.cache.directory = S.path) (h : S.Site s.drive.volume)
    (hd : IsDigest d) :
    let path := Path.join S.path (shardOf d)
    let r := (DiskM.file path (FileM.makeDirs path)).run.run s
    r.2.cache = s.cache ∧
      (r.1 = .ok () ∧ S.Open r.2 d ∧
          (∀ d' e', S.fileAt r.2.drive.volume d' e' = S.fileAt s.drive.volume d' e') ∨
        (∃ err, r.1 = .error err) ∧ r.2.drive.volume = s.drive.volume) ∧
      (s.drive.faults = [] → r.1 = .ok () ∧ r.2.drive.faults = []) := by
  obtain ⟨v, hmake, hstocked, hshard, hfile⟩ : ∃ v, s.drive.volume.makeDirs
      (Path.join S.path (shardOf d)) = .ok v ∧ S.Stocked v ∧ S.HasShard v d ∧
        ∀ d' e', S.fileAt v d' e' = S.fileAt s.drive.volume d' e' := by
    cases h with
    | missing h =>
      obtain ⟨v, hmake, hstocked, hshard, hfile⟩ := h.makeDirs_shard hd
      exact ⟨v, hmake, hstocked, hshard, fun d' e' => by rw [hfile, h.fileAt]⟩
    | stocked h =>
      obtain ⟨v, hmake, hstocked, hshard, hfile, -⟩ := h.makeDirs hd
      exact ⟨v, hmake, hstocked, hshard, hfile⟩
  intro path r
  refine ⟨by simp [r, DiskM.run_file], ?_, fun hfaults => ?_⟩
  · simp only [r, DiskM.run_file]
    rcases FileM.writing_outcome (·.makeDirs path) (fun _ v => v) (·.dirsLeft path) s.drive with
      ⟨v', hmake', hr, hv⟩ | ⟨err, hr, hv⟩
    · rw [hmake] at hmake'
      cases hmake'
      left
      rw [FileM.makeDirs, hr, hv]
      refine ⟨rfl, ⟨hdir, ?_, ?_⟩, hfile⟩
      · exact hv.symm ▸ hstocked
      · exact hv.symm ▸ hshard
    · right
      rw [FileM.makeDirs, hr]
      refine ⟨⟨_, rfl⟩, ?_⟩
      rcases hv with hv | ⟨n, hv⟩ | ⟨hfail, -⟩
      · exact hv
      · exact hv
      · cases hmake.symm.trans hfail
  · simp only [r, path, DiskM.run_file, FileM.makeDirs, FileM.writing_faultless hfaults, hmake]
    exact ⟨rfl, trivial⟩

theorem Wrote.thinner {s' : DiskState} {content : ByteArray}
    (h : S.Wrote s s' d sidecarEnding content) {d' : String} (hd' : IsDigest d') :
    S.fileAt s'.drive.volume d' valueEnding = S.fileAt s.drive.volume d' valueEnding := by
  have hdraft : valueEnding ≠ sidecarEnding ++ unfinishedEnding := by decide
  have hsidecar : valueEnding ≠ sidecarEnding := by decide
  rcases h.file d' valueEnding hd' (fun hsame => hdraft hsame.2) with hsame | ⟨-, hsame, -⟩
  · exact hsame
  · exact absurd hsame hsidecar

theorem Wrote.replaced {s' : DiskState} {content : ByteArray}
    (h : S.Wrote s s' d valueEnding content) : S.Replaced s.drive.volume s'.drive.volume d content := by
  have hdraft : valueEnding ≠ valueEnding ++ unfinishedEnding := by decide
  refine ⟨.stocked h.left.stocked, fun d' c hd' hvalue => ?_⟩
  rcases h.file d' valueEnding hd' (fun hsame => hdraft hsame.2) with hsame | ⟨rfl, -, hcontent⟩
  · exact .inl (hsame ▸ hvalue)
  · rw [hcontent] at hvalue
    cases hvalue
    exact .inr ⟨rfl, rfl⟩

theorem entryAfter_of_filesAfter {v v₁ v₂ v₃ : Volume} {content : ByteArray} {m : Sidecar}
    (hmade : ∀ d' e', S.fileAt v₁ d' e' = S.fileAt v d' e')
    (hvalue : ∀ d' e', IsDigest d' →
      S.fileAt v₂ d' e' = S.filesAfter v₁ d valueEnding content d' e')
    (hsidecar : ∀ d' e', IsDigest d' →
      S.fileAt v₃ d' e' = S.filesAfter v₂ d sidecarEnding m.encode d' e')
    {d' : String} (e' : String) (hd' : IsDigest d') :
    S.fileAt v₃ d' e' = S.entryAfter v d content m d' e' := by
  rw [hsidecar d' e' hd', filesAfter, hvalue d' e' hd', filesAfter, hmade d' e', entryAfter]
  by_cases hsame : d' = d
  · have hne : sidecarEnding ≠ valueEnding := by decide
    have hne' : sidecarEnding ++ unfinishedEnding ≠ valueEnding := by decide
    simp only [hsame, true_and, if_true]
    by_cases h₁ : e' = valueEnding
    · simp [h₁, hne.symm, hne'.symm]
    by_cases h₂ : e' = sidecarEnding
    · simp [h₂, hne]
    by_cases h₃ : e' = sidecarEnding ++ unfinishedEnding
    · simp [h₃, endings, hne']
    · simp [h₁, h₂, h₃, endings]
  · simp [hsame]

theorem Replaced.of_made {v v₁ v₂ : Volume} {content : ByteArray}
    (hmade : ∀ d' e', S.fileAt v₁ d' e' = S.fileAt v d' e') (h : S.Replaced v₁ v₂ d content) :
    S.Replaced v v₂ d content :=
  ⟨h.site, fun d' c hd' hvalue => hmade d' valueEnding ▸ h.value d' c hd' hvalue⟩

theorem Replaced.sidecar {s₁ s₂ : DiskState} {v : Volume} {content sidecar : ByteArray}
    (h : S.Replaced v s₁.drive.volume d content) (hwrote : S.Wrote s₁ s₂ d sidecarEnding sidecar) :
    S.Replaced v s₂.drive.volume d content :=
  ⟨.stocked hwrote.left.stocked, fun d' c hd' hvalue =>
    h.value d' c hd' (hwrote.thinner hd' ▸ hvalue)⟩

/-- Both files of an entry are written whole if all goes well, and in any case the other entries keep
their values and this one has the old value or the new one. -/
theorem wrote_writeEntry (hdir : s.cache.directory = S.path) (h : S.Site s.drive.volume)
    (hd : IsDigest d) (content : ByteArray) (m : Sidecar) :
    let r := (DiskCache.writeEntry d content m).run.run s
    r.2.cache = s.cache ∧ S.Replaced s.drive.volume r.2.drive.volume d content ∧
      (r.1 = .ok () → S.Stocked r.2.drive.volume ∧ ∀ d' e', IsDigest d' →
        S.fileAt r.2.drive.volume d' e' = S.entryAfter s.drive.volume d content m d' e') ∧
      (s.drive.faults = [] → r.1 = .ok () ∧ r.2.drive.faults = []) := by
  have hvalueDraft : valueEnding ++ unfinishedEnding ∈ endings := by decide
  have hsidecarDraft : sidecarEnding ++ unfinishedEnding ∈ endings := by decide
  have hshard : Path.join s.cache.directory ((DiskCache.shard? d).getD "") =
      Path.join S.path (shardOf d) := by
    rw [hd.shard?_eq, hdir]
    rfl
  rw [DiskCache.writeEntry, run_bind_ok (run_get s), hshard]
  obtain ⟨hcache₁, hmake, hfaults₁⟩ := run_makeDirs hdir h hd
  rcases hrun₁ : (DiskM.file (Path.join S.path (shardOf d))
    (FileM.makeDirs (Path.join S.path (shardOf d)))).run.run s with ⟨r₁, s₁⟩
  rw [hrun₁] at hcache₁ hmake hfaults₁
  obtain ⟨rfl, hopen₁, hmade⟩ | ⟨⟨err, rfl⟩, hsame⟩ := hmake
  · obtain ⟨hwrote₂, hvalue, hfaults₂⟩ := wrote_writeWhole hopen₁ hd valueEnding_mem
      hvalueDraft (by decide) content
    rcases hrun₂ : (DiskCache.writeWhole (filePath S.path d valueEnding) content).run.run s₁ with
      ⟨r₂, s₂⟩
    rw [hrun₂] at hwrote₂ hvalue hfaults₂
    have hreplaced := hwrote₂.replaced.of_made hmade
    rw [run_bind_ok hrun₁, run_bind_ok (run_entryPathM hd hopen₁.directory valueEnding)]
    rcases r₂ with err | ⟨⟩
    · rw [run_bind_error hrun₂]
      exact ⟨hwrote₂.cache.trans hcache₁, hreplaced, fun hok => (by cases hok),
        fun hf => (by cases (hfaults₂ (hfaults₁ hf).2).1)⟩
    · obtain ⟨hwrote₃, hsidecar, hfaults₃⟩ := wrote_writeWhole hwrote₂.left hd
        sidecarEnding_mem hsidecarDraft (by decide) m.encode
      rw [run_bind_ok hrun₂, run_bind_ok (run_entryPathM hd hwrote₂.left.directory sidecarEnding)]
      exact ⟨hwrote₃.cache.trans (hwrote₂.cache.trans hcache₁), hreplaced.sidecar hwrote₃,
        fun hok => ⟨hwrote₃.left.stocked, fun d' e' hd' =>
          entryAfter_of_filesAfter hmade (hvalue rfl) (hsidecar hok) e' hd'⟩,
        fun hf => hfaults₃ (hfaults₂ (hfaults₁ hf).2).2⟩
  · rw [run_bind_error hrun₁]
    exact ⟨hcache₁, ⟨hsame ▸ h, fun _ _ _ hvalue => .inl (hsame ▸ hvalue)⟩,
      fun hok => (by cases hok), fun hf => (by cases (hfaults₁ hf).1)⟩

end Entry

end Shelf

end CodeGraph.Cache
