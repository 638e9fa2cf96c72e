import CodeGraph.Proofs.Cache.Strays
import CodeGraph.Proofs.Cache.Programs

/-!
# What the first look at a directory repairs

The first operation that needs the index looks at every name in the sub-directories once, in whatever
order the names are listed, and takes away the files that belong to no entry and nothing else
(`tidies_scan`). What is left is counted (`DiskCache.stats_repairs`).

The names are those that were listed before anything was taken away, so a name may stand for a file that is
gone. That does no harm because a sidecar goes after its value (`Tidied.value`): where the sidecar is
missing there is nothing left to do.
-/

namespace CodeGraph.Cache

open CodeGraph.Path (IsPlain)
open DiskCache (valueEnding sidecarEnding unfinishedEnding withoutEnding?)

variable {v w : Volume} {dir : String} {base names all : List String} {n d e : String}
  {gone gone' : List String → Prop} {c : DiskCache}

/-! ## Taking strays away -/

/-- A cache at work on a directory from which strays have been taken away. -/
structure Tidying (v : Volume) (base : List String) (c : DiskCache) (gone : List String → Prop)
    (s : DiskState) : Prop where
  cache : s.cache = c
  faultless : s.drive.faults = []
  volume : Tidied v base gone s.drive.volume

theorem Tidying.more {s : DiskState} (ht : Tidying v base c gone s)
    (hgone : ∀ q, gone' q → gone q ∨ s.drive.volume.item? q = none) : Tidying v base c gone' s :=
  ⟨ht.cache, ht.faultless, ht.volume.more hgone⟩

/-- What is gone once the name of a file has been looked at: the file itself, unless it is a value whose
sidecar is listed, and with a sidecar its value. -/
def Dropped (v : Volume) (base : List String) (all : List String) (d e : String) (q : List String) :
    Prop :=
  ∃ e', q = placeIn base d e' ∧ ¬ Belongs v base d e' ∧
    (e' = e ∧ (e = valueEnding → d ++ sidecarEnding ∉ all) ∨ e = sidecarEnding ∧ e' = valueEnding)

/-- The path of a value is shorter than that of its sidecar. -/
theorem utf8ByteSize_value_le (hdir : dir ≠ "") (hd : IsHex d) :
    (filePath dir d valueEnding).utf8ByteSize ≤ (filePath dir d sidecarEnding).utf8ByteSize := by
  have hvalue := hd.isPlain_append valueEnding_mem
  have hsidecar := hd.isPlain_append sidecarEnding_mem
  rw [filePath, filePath, Path.join_join hdir hd.isPlain_shardOf hvalue,
    Path.join_join hdir hd.isPlain_shardOf hsidecar]
  simp only [String.utf8ByteSize_append]
  exact Nat.add_le_add_left (Nat.add_le_add_left (by decide) _) _

section Name

variable (h : Shelved v c.directory base) (hd : IsHex d)
  (hthere : (v.item? (placeIn base d e)).isSome)

include h hd hthere

omit hd in
theorem Shelved.short_of_item? :
    (filePath c.directory d e).utf8ByteSize ≤ Volume.longestPath ∧
      v.item? (base ++ [shardOf d]) = some .directory := by
  obtain ⟨i, hi⟩ := Option.isSome_iff_exists.1 hthere
  exact ⟨(h.file _ _ _ hi).2.2, h.directory_of_item? hthere⟩

/-- A file goes that belongs to no entry. -/
theorem tidies_removeIfPresent (he : e ∈ endings) (hstray : ¬ Belongs v base d e)
    (hsidecar : e ≠ sidecarEnding) :
    Ends (Tidying v base c gone) (DiskCache.removeIfPresent (filePath c.directory d e))
      (fun _ => Tidying v base c fun q => gone q ∨ q = placeIn base d e) (fun _ _ => False) := by
  obtain ⟨hshort, hshard⟩ := h.short_of_item? hthere
  refine .of_run fun s hs => ?_
  have hfile := hs.volume.fileAt_filePath h hd he hshard hshort
  exact ⟨(), _, run_removeIfPresent_fileAt hs.faultless hfile, hs.cache, rfl,
    hs.volume.dropFile h hd he hshard hshort hstray fun heq => absurd heq hsidecar⟩

/-- Both files of a digest go if they belong to no entry. -/
theorem tidies_removeFiles (hending : e = sidecarEnding) (hrecord : recordIn v base d = none) :
    Ends (Tidying v base c gone) (DiskCache.removeFiles d)
      (fun _ => Tidying v base c fun q =>
        (gone q ∨ q = placeIn base d valueEnding) ∨ q = placeIn base d sidecarEnding)
      (fun _ _ => False) := by
  subst hending
  obtain ⟨hshort, hshard⟩ := h.short_of_item? hthere
  have hshort' := Nat.le_trans (utf8ByteSize_value_le h.leads.ne_empty hd) hshort
  have hstray : ∀ e, ¬ Belongs v base d e := fun e hbelongs => hbelongs.1 hrecord
  refine .of_run fun s hs => ?_
  obtain ⟨rfl, hfaults, ht⟩ := hs
  have hvalue := ht.fileAt_filePath h hd valueEnding_mem hshard hshort'
  have ht' := ht.dropFile h hd valueEnding_mem hshard hshort' (hstray _) fun heq =>
    absurd heq (by decide)
  have hsidecar := ht'.fileAt_filePath h hd sidecarEnding_mem hshard hshort
  exact ⟨(), _, run_removeFiles_fileAt hfaults hd hvalue hsidecar, rfl, rfl,
    ht'.dropFile h hd sidecarEnding_mem hshard hshort (hstray _) fun _ => .inr rfl⟩

/-- A sidecar that is none goes with its value. -/
theorem tidies_dropSidecar (hending : e = sidecarEnding) (hrecord : recordIn v base d = none) :
    Ends (Tidying v base c gone) (do DiskCache.removeFiles d; return [])
      (fun l s => l = entryFor (recordIn v base) d e ∧
        Tidying v base c (fun q => gone q ∨ Dropped v base all d e q) s)
      (fun _ _ => False) := by
  refine .bind (tidies_removeFiles h hd hthere hending hrecord) fun _ => .pure fun s hs => ⟨?_, ?_⟩
  · rw [entryFor, if_pos hending, hrecord]
    rfl
  · refine hs.more ?_
    rintro q (hq | ⟨e', rfl, -, ⟨rfl, -⟩ | ⟨-, rfl⟩⟩)
    · exact .inl (.inl (.inl hq))
    · exact .inl (.inr (by rw [hending]))
    · exact .inl (.inl (.inr rfl))

theorem tidies_scanSidecar (hending : e = sidecarEnding) :
    Ends (Tidying v base c gone)
      (DiskCache.scanName (Path.join c.directory (shardOf d)) all (d ++ e))
      (fun l s => l = entryFor (recordIn v base) d e ∧
        Tidying v base c (fun q => gone q ∨ Dropped v base all d e q) s)
      (fun _ _ => False) := by
  subst hending
  obtain ⟨hshort, hshard⟩ := h.short_of_item? hthere
  rw [scanName_sidecar]
  refine .of_run fun s hs => ?_
  have hfile := hs.volume.fileAt_filePath h hd sidecarEnding_mem hshard hshort
  rw [filePath] at hfile
  rw [run_bind_ok (run_readSidecar_fileAt hs.faultless hfile)]
  rcases hcontent : contentIn s.drive.volume base d sidecarEnding with _ | b
  -- The name was listed before the sidecar went, and the value went first.
  · obtain ⟨hrecord, hitem, hvalue⟩ := hs.volume.of_missing h hd hthere hcontent
    refine ⟨[], s, rfl, by rw [entryFor, if_pos rfl, hrecord]; rfl, hs.more ?_⟩
    rintro q (hq | ⟨e', rfl, -, ⟨rfl, -⟩ | ⟨-, rfl⟩⟩)
    · exact .inl hq
    · exact .inr hitem
    · exact .inr hvalue
  · have hitem := contentIn_eq_some_iff.1 hcontent
    have hrecord := recordIn_of_content (v := v) (contentIn_eq_some_iff.2
      (hs.volume.isSome_of_isSome (by rw [hitem]; rfl) ▸ hitem))
    simp only [sidecarRead]
    rcases hdecode : Sidecar.decode? b with _ | m
    · rw [hdecode] at hrecord
      exact (tidies_dropSidecar h hd hthere rfl hrecord).exists_ok hs
    rw [hdecode] at hrecord
    by_cases hversion : m.version = Sidecar.currentVersion
    · rw [Option.filter_some, if_pos (beq_iff_eq.2 hversion)] at hrecord
      simp only [if_pos hversion]
      refine ⟨_, s, rfl, by rw [entryFor, if_pos rfl, hrecord]; rfl, hs.more ?_⟩
      rintro q (hq | ⟨e', -, hstray, hending⟩)
      · exact .inl hq
      · refine absurd ⟨by rw [hrecord]; exact Option.some_ne_none _, ?_⟩ hstray
        exact hending.elim (fun h => .inr h.1) fun h => .inl h.2
    · rw [Option.filter_some, if_neg (by simpa using hversion)] at hrecord
      simp only [if_neg hversion]
      exact (tidies_dropSidecar h hd hthere rfl hrecord).exists_ok hs

theorem tidies_scanName (he : e ∈ endings)
    (hall : recordIn v base d ≠ none → d ++ sidecarEnding ∈ all) :
    Ends (Tidying v base c gone)
      (DiskCache.scanName (Path.join c.directory (shardOf d)) all (d ++ e))
      (fun l s => l = entryFor (recordIn v base) d e ∧
        Tidying v base c (fun q => gone q ∨ Dropped v base all d e q) s)
      (fun _ _ => False) := by
  by_cases hsidecar : e = sidecarEnding
  · exact tidies_scanSidecar h hd hthere hsidecar
  have hentry : entryFor (recordIn v base) d e = [] := if_neg hsidecar
  have hdrop : ¬ Belongs v base d e → Ends (Tidying v base c gone)
      (do DiskCache.removeIfPresent (Path.join (Path.join c.directory (shardOf d)) (d ++ e)); return [])
      (fun l s => l = entryFor (recordIn v base) d e ∧
        Tidying v base c (fun q => gone q ∨ Dropped v base all d e q) s)
      (fun _ _ => False) := by
    intro hstray
    refine .bind (tidies_removeIfPresent h hd hthere he hstray hsidecar) fun _ =>
      .pure fun s hs => ⟨hentry.symm, hs.more ?_⟩
    rintro q (hq | ⟨e', rfl, -, ⟨rfl, -⟩ | ⟨heq, -⟩⟩)
    · exact .inl (.inl hq)
    · exact .inl (.inr rfl)
    · exact absurd heq hsidecar
  by_cases hvalue : e = valueEnding
  · subst hvalue
    rw [scanName_value _ _ hd.withoutEnding?_value]
    split
    · next hlisted =>
      refine .pure fun s hs => ⟨hentry.symm, hs.more ?_⟩
      rintro q (hq | ⟨e', -, -, ⟨-, hnot⟩ | ⟨heq, -⟩⟩)
      · exact .inl hq
      · exact absurd hlisted (hnot rfl)
      · exact absurd heq hsidecar
    · next hlisted =>
      exact hdrop fun hbelongs => hlisted (hall hbelongs.1)
  -- What is left are the names of unfinished files.
  · rw [scanName_unfinished _ _ he hvalue hsidecar]
    exact hdrop fun hbelongs => hbelongs.2.elim hvalue hsidecar

end Name

/-! ## Whole directories -/

section Directory

variable (h : Shelved v c.directory base)

include h

/-- The names in a sub-directory are looked at in turn. -/
theorem tidies_scanNames
    (hnames : ∀ x ∈ names, ∃ d e, IsHex d ∧ e ∈ endings ∧ n = shardOf d ∧ x = d ++ e ∧
      (v.item? (placeIn base d e)).isSome ∧ (recordIn v base d ≠ none → d ++ sidecarEnding ∈ all)) :
    Ends (Tidying v base c gone) (DiskCache.scanNames (Path.join c.directory n) all names)
      (fun l s => (∀ p, p ∈ l ↔ p.1 ++ sidecarEnding ∈ names ∧ recordIn v base p.1 = some p.2) ∧
        Tidying v base c (fun q => gone q ∨
          ∃ d e, IsHex d ∧ e ∈ endings ∧ d ++ e ∈ names ∧ Dropped v base all d e q) s)
      (fun _ _ => False) := by
  induction names generalizing gone with
  | nil =>
    refine .pure fun s hs => ⟨by simp, hs.more ?_⟩
    rintro q (hq | ⟨d, e, -, -, hmem, -⟩)
    · exact .inl hq
    · cases hmem
  | cons x names ih =>
    obtain ⟨⟨d, e, hd, he, rfl, rfl, hthere, hall⟩, hlater⟩ := List.forall_mem_cons.1 hnames
    refine .bind (tidies_scanName h hd hthere he hall) fun here => .assume fun hhere =>
      .bind (ih hlater) fun rest => .assume fun hrest => .pure fun s hs => ⟨fun p => ?_, hs.more ?_⟩
    · rw [List.mem_append, hhere, mem_entryFor hd he, hrest, List.mem_cons, ← or_and_right, eq_comm]
    · rintro q (hq | ⟨d', e', hd', he', hmem, hdropped⟩)
      · exact .inl (.inl (.inl hq))
      · rcases List.mem_cons.1 hmem with heq | hmem
        · obtain ⟨rfl, rfl⟩ := hd'.append_inj hd heq
          exact .inl (.inl (.inr hdropped))
        · exact .inl (.inr ⟨d', e', hd', he', hmem, hdropped⟩)

omit h in
/-- A stray is taken away for the name of its sidecar if that is listed, else for its own. -/
theorem exists_dropped (hd : IsHex d) (he : e ∈ endings) (hmem : d ++ e ∈ names)
    (hstray : ¬ Belongs v base d e) :
    ∃ d' e', IsHex d' ∧ e' ∈ endings ∧ d' ++ e' ∈ names ∧
      Dropped v base names d' e' (placeIn base d e) := by
  by_cases hvalue : e = valueEnding ∧ d ++ sidecarEnding ∈ names
  · exact ⟨d, sidecarEnding, hd, sidecarEnding_mem, hvalue.2, e, rfl, hstray, .inr ⟨rfl, hvalue.1⟩⟩
  · exact ⟨d, e, hd, he, hmem, e, rfl, hstray, .inl ⟨rfl, fun heq hlisted => hvalue ⟨heq, hlisted⟩⟩⟩

/-- The strays in a sub-directory. -/
def StrayUnder (v : Volume) (base : List String) (n : String) (q : List String) : Prop :=
  Stray v base q ∧ ∃ m, q = base ++ [n, m]

/-- The names are those that the sub-directory lists when some strays are gone. -/
def Listing (base : List String) (n : String) (names : List String) (s : DiskState) : Prop :=
  ∀ x, x ∈ names ↔ (s.drive.volume.item? (base ++ [n, x])).isSome

namespace Listing

variable {s : DiskState} (hlisting : Listing base n names s) (hs : Tidying v base c gone s)

include hlisting hs

/-- The sidecars of entries are listed. -/
theorem sidecar (hrecord : recordIn v base d ≠ none) (hn : shardOf d = n) :
    d ++ sidecarEnding ∈ names := by
  obtain rfl := hn
  obtain ⟨hd, hsidecar⟩ := h.sidecar_of_recordIn hrecord
  rw [hlisting]
  exact hs.volume.item_of_belongs hd ⟨hrecord, .inr rfl⟩ ▸ hsidecar

/-- What is listed is a file of an entry. -/
theorem name {x : String} (hx : x ∈ names) : ∃ d e, IsHex d ∧ e ∈ endings ∧ n = shardOf d ∧
    x = d ++ e ∧ (v.item? (placeIn base d e)).isSome := by
  have hsome := (hlisting x).1 hx
  rw [hs.volume.isSome_of_isSome hsome] at hsome
  obtain ⟨i, hi⟩ := Option.isSome_iff_exists.1 hsome
  obtain ⟨⟨d, e, hd, he, rfl, rfl⟩, -⟩ := h.file _ _ _ hi
  exact ⟨d, e, hd, he, rfl, rfl, hsome⟩

end Listing

/-- What has been listed is looked at. -/
theorem tidies_scanListed (names : List String) :
    Ends (fun s => Listing base n names s ∧ Tidying v base c gone s)
      (DiskCache.scanNames (Path.join c.directory n) names names)
      (fun l s => (∀ p, p ∈ l ↔ shardOf p.1 = n ∧ recordIn v base p.1 = some p.2) ∧
        Tidying v base c (fun q => gone q ∨ StrayUnder v base n q) s)
      (fun _ _ => False) := by
  refine .of_run fun s hs => ?_
  obtain ⟨hlisting, hs⟩ := hs
  have hnames : ∀ x ∈ names, ∃ d e, IsHex d ∧ e ∈ endings ∧ n = shardOf d ∧ x = d ++ e ∧
      (v.item? (placeIn base d e)).isSome ∧
      (recordIn v base d ≠ none → d ++ sidecarEnding ∈ names) := by
    intro x hx
    obtain ⟨d, e, hd, he, hn, hname, hthere⟩ := hlisting.name h hs hx
    exact ⟨d, e, hd, he, hn, hname, hthere, fun hrecord => hlisting.sidecar h hs hrecord hn.symm⟩
  -- A stray whose name is not listed is gone already.
  have hstart : Tidying v base c (fun q => gone q ∨
      StrayUnder v base n q ∧ s.drive.volume.item? q = none) s :=
    hs.more fun q hq => hq.imp_right fun hq => hq.2
  obtain ⟨l, s', hrun, hl, hs'⟩ := (tidies_scanNames h hnames).exists_ok hstart
  refine ⟨l, s', hrun, fun p => ?_, hs'.more ?_⟩
  · rw [hl]
    refine and_congr_left fun hrecord =>
      ⟨fun hmem => ?_, hlisting.sidecar h hs (by simp [hrecord])⟩
    obtain ⟨d, e, hd, he, rfl, hname, -⟩ := hlisting.name h hs hmem
    rw [hd.eq_of_append_sidecarEnding he hname.symm]
  · rintro q (hq | hq)
    · exact .inl (.inl (.inl hq))
    rcases hitem : s.drive.volume.item? q with _ | i
    · exact .inl (.inl (.inr ⟨hq, rfl⟩))
    · obtain ⟨⟨d, e, hd, he, rfl, hstray⟩, m, hm⟩ := hq
      have hnames := List.append_cancel_left hm
      simp only [List.cons.injEq, and_true] at hnames
      obtain ⟨rfl, rfl⟩ := hnames
      exact .inl (.inr (exists_dropped hd he ((hlisting _).2 (by rw [← placeIn, hitem]; rfl)) hstray))

/-- What is in the directory is no directory, or its names are listed and looked at. -/
theorem tidies_scanShard (hthere : (v.item? (base ++ [n])).isSome) :
    Ends (Tidying v base c gone) (DiskCache.scanShard (Path.join c.directory n))
      (fun l s => (∀ p, p ∈ l ↔ shardOf p.1 = n ∧ recordIn v base p.1 = some p.2) ∧
        Tidying v base c (fun q => gone q ∨ StrayUnder v base n q) s)
      (fun _ _ => False) := by
  refine .of_run fun s hs => ?_
  obtain ⟨i, hi⟩ := Option.isSome_iff_exists.1 hthere
  obtain ⟨hplain, hshort⟩ := h.name n hthere
  have hkind : s.drive.volume.linkMetadata (Path.join c.directory n) = .ok i :=
    (hs.volume.leads h).linkMetadata_name hplain hshort (hs.volume.item_at_top hi)
  rw [DiskCache.scanShard, run_bind_ok (DiskM.run_file_reading hs.faultless _ hkind)]
  by_cases hdirectory : i = .directory
  · subst hdirectory
    have hlead := hs.volume.leads_shard h hi
    simp only [Item.isDirectory, if_true]
    have hlist : (DiskM.file (Path.join c.directory n) (FileM.readDir (Path.join c.directory n))).run.run
        s = (.ok (s.drive.volume.children (base ++ [n])), s) :=
      DiskM.run_file_reading hs.faultless (Path.join c.directory n) hlead.readDir
    rw [run_bind_ok hlist]
    refine (tidies_scanListed h _).exists_ok ⟨fun x => ?_, hs⟩
    rw [Volume.mem_children, ← List.append_cons]
  · have hnone : ∀ m, v.item? (base ++ [n, m]) = none := by
      intro m
      by_contra hsome
      have hparent := h.directory_of_item? (Option.ne_none_iff_isSome.1 hsome)
      rw [hi] at hparent
      exact hdirectory (Option.some.inj hparent)
    have hnot : i.isDirectory = false := by
      rcases i with _ | _ | _
      · rfl
      · exact absurd rfl hdirectory
      · rfl
    simp only [hnot, Bool.false_eq_true, if_false]
    refine ⟨[], s, rfl, fun p => ?_, hs.more ?_⟩
    · refine ⟨fun hp => (by cases hp), ?_⟩
      rintro ⟨rfl, hrecord⟩
      have hsidecar := (h.sidecar_of_recordIn (by rw [hrecord]; exact Option.some_ne_none _)).2
      rw [placeIn, hnone] at hsidecar
      cases hsidecar
    · rintro q (hq | ⟨-, m, rfl⟩)
      · exact .inl hq
      · rcases hs.volume.item (base ++ [n, m]) with hsame | hgone
        · exact .inr (hsame.trans (hnone m))
        · exact .inr hgone.1

theorem tidies_scanShards (hnames : ∀ n ∈ names, (v.item? (base ++ [n])).isSome) :
    Ends (Tidying v base c gone) (DiskCache.scanShards c.directory names)
      (fun l s => (∀ p, p ∈ l ↔ shardOf p.1 ∈ names ∧ recordIn v base p.1 = some p.2) ∧
        Tidying v base c (fun q => gone q ∨ ∃ n ∈ names, StrayUnder v base n q) s)
      (fun _ _ => False) := by
  induction names generalizing gone with
  | nil =>
    refine .pure fun s hs => ⟨by simp, hs.more ?_⟩
    rintro q (hq | ⟨n, hn, -⟩)
    · exact .inl hq
    · cases hn
  | cons n names ih =>
    obtain ⟨hthere, hlater⟩ := List.forall_mem_cons.1 hnames
    refine .bind (tidies_scanShard h hthere) fun here => .assume fun hhere =>
      .bind (ih hlater) fun rest => .assume fun hrest => .pure fun s hs => ⟨fun p => ?_, hs.more ?_⟩
    · rw [List.mem_append, hhere, hrest, List.mem_cons, or_and_right]
    · rintro q (hq | ⟨m, hm, hstray⟩)
      · exact .inl (.inl (.inl hq))
      · rcases List.mem_cons.1 hm with rfl | hm
        · exact .inl (.inl (.inr hstray))
        · exact .inl (.inr ⟨m, hm, hstray⟩)

/-- **The scan takes away the strays and nothing else**, and finds what is recorded. -/
theorem tidies_scan :
    Ends (fun s => s.cache = c ∧ s.drive = ⟨v, []⟩) DiskCache.scan
      (fun l s => (∀ p, p ∈ l ↔ recordIn v base p.1 = some p.2) ∧
        Tidying v base c (Stray v base) s)
      (fun _ _ => False) := by
  refine .of_run fun s hs => ?_
  obtain ⟨rfl, hdrive⟩ := hs
  have hstart : Tidying v base s.cache (fun q => v.item? q = none) s :=
    ⟨rfl, by rw [hdrive], by rw [hdrive]; exact .start v base⟩
  have hnames : s.drive.volume.readDir s.cache.directory = .ok (v.children base) := by
    rw [hdrive]
    exact h.leads.readDir
  have hlisted : ∀ n, n ∈ v.children base ↔ (v.item? (base ++ [n])).isSome :=
    fun n => Volume.mem_children
  obtain ⟨l, s', hrun, hl, hs'⟩ :=
    (tidies_scanShards h fun n hn => (hlisted n).1 hn).exists_ok hstart
  refine ⟨l, s', ?_, fun p => ?_, hs'.more fun q hstray => ?_⟩
  · have hlist := DiskM.run_files_reading (s := s) (by rw [hdrive]) (·.readDir s.cache.directory)
    rw [DiskCache.scan, run_bind_ok (run_get s)]
    refine (run_bind_ok hlist).trans ?_
    rw [hnames]
    exact hrun
  · rw [hl, and_iff_right_iff_imp]
    intro hrecord
    have hsidecar := (h.sidecar_of_recordIn (by rw [hrecord]; exact Option.some_ne_none _)).2
    rw [hlisted, h.directory_of_item? hsidecar]
    rfl
  · obtain ⟨d, e, -, -, rfl, -⟩ := id hstray
    rcases hitem : v.item? (placeIn base d e) with _ | i
    · exact .inl (.inl rfl)
    · refine .inl (.inr ⟨shardOf d, ?_, hstray, _, rfl⟩)
      rw [hlisted, h.directory_of_item? (m := d ++ e) (by rw [← placeIn, hitem]; rfl)]
      rfl

end Directory

/-! ## The index -/

/-- A directory that holds entries and nothing else, and the index of them. -/
structure Repaired (v : Volume) (base : List String) (stats : DiskStats) (s : DiskState) : Prop where
  /-- No file is left that was not finished. -/
  unfinished : ∀ n m, (s.drive.volume.item? (base ++ [n, m])).isSome →
    withoutEnding? unfinishedEnding m = none
  /-- Every sidecar that is left can be read and is of the current version. -/
  sidecar : ∀ d b, contentIn s.drive.volume base d sidecarEnding = some b → ∃ m, Recorded (some b) m
  /-- Every value that is left has its sidecar. -/
  value : ∀ d, IsHex d → contentIn s.drive.volume base d valueEnding ≠ none →
    contentIn s.drive.volume base d sidecarEnding ≠ none
  /-- The sidecars of the current version stay as they are, and so do their values. -/
  kept : ∀ d m, Recorded (contentIn v base d sidecarEnding) m →
    s.drive.volume.item? (placeIn base d sidecarEnding) = v.item? (placeIn base d sidecarEnding) ∧
      s.drive.volume.item? (placeIn base d valueEnding) = v.item? (placeIn base d valueEnding)
  /-- Nothing else is changed, and nothing is gone but files that belong to no entry. -/
  damage : ∀ q, s.drive.volume.item? q = v.item? q ∨
    s.drive.volume.item? q = none ∧ Stray v base q
  /-- The index has what the sidecars of the current version record, and nothing else. -/
  index : ∀ d i, s.cache.index.entries.get? d = some i ↔
    ∃ m, Recorded (contentIn v base d sidecarEnding) m ∧ i = ⟨m.key, m.timestamp, m.size⟩
  stats : stats = ⟨s.cache.index.entries.size, s.cache.index.totalSize, s.cache.maxSize⟩
  total : s.cache.index.Exact

theorem Tidied.belongs (ht : Tidied v base (Stray v base) w) (hd : IsHex d) (he : e ∈ endings)
    (hitem : (w.item? (placeIn base d e)).isSome) : Belongs v base d e := by
  by_contra hstray
  rw [ht.gone _ ⟨d, e, hd, he, rfl, hstray⟩] at hitem
  cases hitem

theorem Tidied.contentIn_sidecar (ht : Tidied v base gone w) (h : Shelved v dir base)
    (hrecord : recordIn v base d ≠ none) :
    contentIn w base d sidecarEnding = contentIn v base d sidecarEnding := by
  have hd := (h.sidecar_of_recordIn hrecord).1
  rw [contentIn, contentIn, ht.item_of_belongs hd ⟨hrecord, .inr rfl⟩]

theorem Tidied.repaired {stats : DiskStats} {s : DiskState} (h : Shelved v dir base)
    (ht : Tidied v base (Stray v base) s.drive.volume)
    (hindex : ∀ d, s.cache.index.entries.get? d = recordIn v base d) (hexact : s.cache.index.Exact)
    (hstats : stats = ⟨s.cache.index.entries.size, s.cache.index.totalSize, s.cache.maxSize⟩) :
    Repaired v base stats s := by
  refine ⟨?_, ?_, ?_, ?_, ht.item, ?_, hstats, hexact⟩
  · intro n m hitem
    have hitem' := hitem
    rw [ht.isSome_of_isSome hitem] at hitem'
    obtain ⟨i, hi⟩ := Option.isSome_iff_exists.1 hitem'
    obtain ⟨⟨d, e, hd, he, rfl, rfl⟩, -⟩ := h.file _ _ _ hi
    exact withoutEnding?_unfinished (ht.belongs hd he hitem).2
  · intro d b hb
    have hitem := isSome_of_contentIn (by rw [hb]; exact Option.some_ne_none b)
    have hd := h.isHex_of_sidecar (ht.isSome_of_isSome hitem ▸ hitem)
    have hrecord := (ht.belongs hd sidecarEnding_mem hitem).1
    obtain ⟨i, hi⟩ := Option.ne_none_iff_exists'.1 hrecord
    obtain ⟨m, hm, -⟩ := recordIn_eq_some_iff.1 hi
    rw [← ht.contentIn_sidecar h hrecord, hb] at hm
    exact ⟨m, hm⟩
  · intro d hd hvalue
    have hrecord := (ht.belongs hd valueEnding_mem (isSome_of_contentIn hvalue)).1
    rw [ht.contentIn_sidecar h hrecord]
    exact h.contentIn_ne_none (h.sidecar_of_recordIn hrecord).2
  · intro d m hm
    have hrecord : recordIn v base d ≠ none := by
      rw [recordIn_eq_some_iff.2 ⟨m, hm, rfl⟩]
      exact Option.some_ne_none _
    have hd := (h.sidecar_of_recordIn hrecord).1
    exact ⟨ht.item_of_belongs hd ⟨hrecord, .inr rfl⟩, ht.item_of_belongs hd ⟨hrecord, .inl rfl⟩⟩
  · intro d i
    rw [hindex, recordIn_eq_some_iff]
    exact exists_congr fun m => and_congr_right fun _ => eq_comm

namespace DiskCache

section Stats

variable {s : DiskState} (hfaults : s.drive.faults = []) (hunseeded : s.cache.seeded = false)
  (h : Shelved s.drive.volume s.cache.directory base)
  (hfits : DiskIndex.Fits (recordIn s.drive.volume base) (UInt64.size - 1))

include hfaults hunseeded h hfits

theorem run_ensureIndex_shelved :
    ∃ s', ensureIndex.run.run s = (.ok (), s') ∧ s'.cache.index.Exact ∧
      (∀ d, s'.cache.index.entries.get? d = recordIn s.drive.volume base d) ∧
      Tidied s.drive.volume base (Stray s.drive.volume base) s'.drive.volume := by
  have hdrive : s.drive = ⟨s.drive.volume, []⟩ := by rw [← hfaults]
  obtain ⟨l, s₁, hscan, hl, hs₁⟩ := (tidies_scan h).exists_ok ⟨rfl, hdrive⟩
  obtain ⟨index, hindex, hexact, hget⟩ := DiskIndex.exists_ofList? hfits (by decide) hl
  refine ⟨{ s₁ with cache := { s₁.cache with index, seeded := true } }, ?_, hexact, hget,
    hs₁.volume⟩
  rw [ensureIndex, run_bind_ok (run_get s), hunseeded]
  simp only [Bool.not_false, if_true]
  rw [run_bind_ok hscan, hindex]
  rfl

/-- **The first look at a directory repairs exactly the damage.** Whatever mixture of files of entries
its sub-directories hold, with whatever bytes in them, afterwards they hold entries only, none of which has
been touched, and the index has just these. -/
theorem stats_repairs :
    ∃ answer s', stats.run.run s = (.ok answer, s') ∧
      Repaired s.drive.volume base answer s' := by
  obtain ⟨s', hrun, hexact, hindex, ht⟩ := run_ensureIndex_shelved hfaults hunseeded h hfits
  refine ⟨_, s', ?_, ht.repaired h hindex hexact rfl⟩
  rw [stats, run_bind_ok hrun, run_bind_ok (run_get s')]
  rfl

end Stats

section Entry

variable {b b' : ByteArray} (hd : IsDigest d)

theorem item?_entryVolume_cases {r : List String} {i : Item}
    (hi : (entryVolume d b b').item? ("cache" :: r) = some i) :
    r = [] ∨ r = [shardOf d] ∨ r = [shardOf d, d ++ sidecarEnding] ∧ i = .file b ∨
      r = [shardOf d, d ++ valueEnding] ∧ i = .file b' := by
  have hmem := Volume.mem_entries_of_item? (List.cons_ne_nil _ _) hi
  simp only [entryVolume, List.mem_cons, Prod.mk.injEq, List.cons.injEq, true_and, List.not_mem_nil,
    or_false] at hmem
  rcases hmem with ⟨rfl, -⟩ | ⟨rfl, -⟩ | h | h
  · exact .inl rfl
  · exact .inr (.inl rfl)
  · exact .inr (.inr (.inl h))
  · exact .inr (.inr (.inr h))

include hd

theorem shelved_entryVolume : Shelved (entryVolume d b b') "cache" ["cache"] := by
  refine ⟨(unlinked_entryVolume hd).toIsTree, Volume.leadsTo_name rfl isPlain_cache rfl, ?_, ?_⟩
  · intro n hn
    obtain ⟨i, hi⟩ := Option.isSome_iff_exists.1 hn
    rcases item?_entryVolume_cases hi with h | h | ⟨h, -⟩ | ⟨h, -⟩
    · cases h
    · obtain rfl := List.singleton_inj.1 h
      exact ⟨hd.isPlain_shardOf, shard_short_cache hd⟩
    · cases h
    · cases h
  · intro n m i hi
    rcases item?_entryVolume_cases hi with h | h | ⟨h, rfl⟩ | ⟨h, rfl⟩
    · cases h
    · cases h
    · obtain ⟨rfl, rfl⟩ : n = shardOf d ∧ m = d ++ sidecarEnding := by simpa using h
      exact ⟨⟨d, _, hd.isHex, sidecarEnding_mem, rfl, rfl⟩, ⟨b, rfl⟩,
        file_short_cache hd sidecarEnding_mem⟩
    · obtain ⟨rfl, rfl⟩ : n = shardOf d ∧ m = d ++ valueEnding := by simpa using h
      exact ⟨⟨d, _, hd.isHex, valueEnding_mem, rfl, rfl⟩, ⟨b', rfl⟩,
        file_short_cache hd valueEnding_mem⟩

/-- Nothing is recorded in a file that cannot be read. -/
theorem recordIn_entryVolume (hjunk : Sidecar.decode? b = none) (d' : String) :
    recordIn (entryVolume d b b') ["cache"] d' = none := by
  rcases hrecord : recordIn (entryVolume d b b') ["cache"] d' with _ | i
  · rfl
  obtain ⟨m, ⟨c, hc, hdecode, -⟩, -⟩ := recordIn_eq_some_iff.1 hrecord
  rcases item?_entryVolume_cases (contentIn_eq_some_iff.1 hc) with h | h | ⟨-, h⟩ | ⟨h, -⟩
  · simp at h
  · simp at h
  · cases h
    rw [hjunk] at hdecode
    cases hdecode
  · have hname : d' ++ sidecarEnding = d ++ valueEnding := by simpa using (List.cons.inj h).2
    obtain rfl := hd.eq_of_append_sidecarEnding valueEnding_mem hname.symm
    exact absurd (hd.append_inj hd hname).2 (by decide)

end Entry

/-- A value goes whose sidecar cannot be read. -/
theorem stats_repairs_junk : ∃ answer s',
    stats.run.run ⟨DiskCache.new ⟨"cache", 10⟩,
        ⟨entryVolume (keyDigest "k") "junk".toUTF8 "value".toUTF8, []⟩⟩ = (.ok answer, s') ∧
      contentIn s'.drive.volume ["cache"] (keyDigest "k") valueEnding = none := by
  have hjunk : Sidecar.decode? "junk".toUTF8 = none := by decide
  have hd := isDigest_keyDigest "k"
  -- The digest is left open so that nothing computes it.
  generalize keyDigest "k" = d at *
  have hrecord : ∀ d', recordIn (entryVolume d "junk".toUTF8 "value".toUTF8) ["cache"] d' = none :=
    recordIn_entryVolume hd hjunk
  have hsize : DiskIndex.sizeIn (recordIn (entryVolume d "junk".toUTF8 "value".toUTF8) ["cache"]) =
      fun _ => 0 := by
    funext d'
    rw [DiskIndex.sizeIn, hrecord]
    rfl
  obtain ⟨answer, s', hrun, hrepaired⟩ := stats_repairs
    (s := ⟨DiskCache.new ⟨"cache", 10⟩, ⟨entryVolume d "junk".toUTF8 "value".toUTF8, []⟩⟩)
    rfl rfl (shelved_entryVolume hd) fun l _ => by
      rw [hsize]
      simp
  refine ⟨answer, s', hrun, ?_⟩
  by_contra hvalue
  -- The value would have its sidecar, which would be the one that cannot be read.
  obtain ⟨b, hb⟩ := Option.ne_none_iff_exists'.1 (hrepaired.value d hd.isHex hvalue)
  obtain ⟨m, hm⟩ := hrepaired.sidecar d b hb
  have hitem := contentIn_eq_some_iff.1 hb
  rcases hrepaired.damage (placeIn ["cache"] d sidecarEnding) with hsame | ⟨hnone, -⟩
  · have hold : contentIn (entryVolume d "junk".toUTF8 "value".toUTF8) ["cache"] d sidecarEnding =
        some b := contentIn_eq_some_iff.2 (hsame ▸ hitem)
    have hm' := recordIn_eq_some_iff.2 ⟨m, hold.symm ▸ hm, rfl⟩
    rw [hrecord] at hm'
    cases hm'
  · rw [hnone] at hitem
    cases hitem

end DiskCache

end CodeGraph.Cache
