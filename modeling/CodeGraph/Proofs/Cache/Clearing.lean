import CodeGraph.Proofs.Cache.Breakdown
import CodeGraph.Proofs.Cache.Foreign
import CodeGraph.Proofs.Cache.Replacing
import CodeGraph.Proofs.Cache.Runs
import CodeGraph.Proofs.Volume.Missing
import CodeGraph.Proofs.Volume.Publishing

/-!
# What is left after clearing

Clearing takes away what the directory lists, name by name (`sheds_clearNames`), so nothing is left in the
directory and everything else stays. Then the index is empty or is made of an empty directory, the cache
counts nothing, and every value that fits is stored without dropping another (`countsNothing_of_bare`).

There is one exception. If the directory itself is missing, clearing ends at once and leaves the index as
it was, which then goes on counting what had been stored in the directory before it went
(`DiskState.Outlived`).
-/

namespace CodeGraph.Cache

open CodeGraph.Path (IsPlain)
open DiskCache (Named)

/-! ## Taking away what is listed -/

/-- The first volume without what is, or is below, an item of one of some names in a directory. -/
structure Shed (v : Volume) (base : List String) (names : List String) (w : Volume) : Prop where
  sparser : w.Sparser v
  item : ∀ q, w.item? q = if ∃ n ∈ names, base ++ [n] <+: q then none else v.item? q

variable {v w : Volume} {dir : String} {base names : List String} {n : String} {c : DiskCache}

theorem Shed.refl (v : Volume) (base : List String) : Shed v base [] v :=
  ⟨.refl v, fun q => by simp⟩

theorem Shed.remove (h : Shed v base names w) (n : String) :
    Shed v base (names ++ [n]) (w.remove (base ++ [n])) := by
  refine ⟨(Volume.sparser_remove w _).trans h.sparser, fun q => ?_⟩
  rw [Volume.item?_remove, h.item]
  by_cases hgone : base ++ [n] <+: q
  · have hne : q ≠ [] := by
      rintro rfl
      simp at hgone
    rw [if_pos ⟨hne, List.isPrefixOf_iff_prefix.2 hgone⟩, if_pos ⟨n, by simp, hgone⟩]
  · rw [if_neg fun hbelow => hgone (List.isPrefixOf_iff_prefix.1 hbelow.2)]
    simp [or_and_right, exists_or, hgone]

/-- Nothing is below the directory, and everything else is as it was. -/
def Emptied (base : List String) (v w : Volume) : Prop :=
  ∀ q, w.item? q = if base <+: q ∧ q ≠ base then none else v.item? q

/-- Without what it lists a directory is empty. -/
theorem Shed.emptied (hv : v.IsTree) (h : Shed v base (v.children base) w) : Emptied base v w := by
  intro q
  rw [h.item]
  by_cases hbelow : base <+: q ∧ q ≠ base
  · rw [if_pos hbelow]
    obtain ⟨⟨back, rfl⟩, hne⟩ := hbelow
    rcases back with _ | ⟨n, back⟩
    · exact absurd (List.append_nil base) hne
    split
    · rfl
    · next hkept =>
      -- A name that is not listed has no item, and neither has anything below it.
      rcases hitem : v.item? (base ++ n :: back) with _ | i
      · rfl
      refine absurd ⟨n, Volume.mem_children.2 ?_, ⟨back, by simp⟩⟩ hkept
      rcases back with _ | ⟨m, back⟩
      · rw [hitem]
        rfl
      · have habove : v.item? (base ++ [n]) = some .directory :=
          hv.above (List.cons_ne_nil m back) (by simp [hitem])
        rw [habove]
        rfl
  · rw [if_neg hbelow, if_neg]
    rintro ⟨n, -, back, rfl⟩
    refine hbelow ⟨⟨n :: back, by simp⟩, ?_⟩
    simp

/-- What is taken away by a name in the directory. -/
theorem sheds_take (hlead : v.LeadsTo dir base) (hn : IsPlain n)
    {op : Volume → Except OsError Volume}
    (hop : ∀ w w', op w = .ok w' →
      ∃ r i, w.find false (Path.join dir n) = .ok (r, i) ∧ w' = w.remove r) :
    Ends (fun s => s.cache = c ∧ Shed v base names s.drive.volume)
      (DiskM.file (Path.join dir n) (FileM.writing op))
      (fun _ s => s.cache = c ∧ Shed v base (names ++ [n]) s.drive.volume) fun _ _ => True := by
  refine .file fun s hs => ?_
  obtain ⟨hcache, hshed⟩ := hs
  rcases FileM.writing_cases op (fun _ v => v) s.drive with ⟨w, hw, hanswer, hv⟩ | ⟨e, hanswer, -⟩
  · obtain ⟨r, i, hfind, rfl⟩ := hop _ _ hw
    obtain rfl : r = base ++ [n] := hlead.eq_of_resolve_join hn
      (Volume.resolve_of_find (Volume.find_within hshed.sparser.within hfind))
    rw [hanswer]
    refine ⟨hcache, ?_⟩
    change Shed v base (names ++ [n]) ((FileM.writing op fun _ v => v).run s.drive).2.volume
    rw [hv]
    exact hshed.remove n
  · rw [hanswer]
    trivial

theorem sheds_clearNames (hlead : v.LeadsTo dir base) (hplain : ∀ n ∈ names, IsPlain n)
    (gone : List String) :
    Ends (fun s => s.cache = c ∧ Shed v base gone s.drive.volume) (DiskCache.clearNames dir names)
      (fun _ s => s.cache = c ∧ Shed v base (gone ++ names) s.drive.volume) fun _ _ => True := by
  induction names generalizing gone with
  | nil => exact .pure fun s hs => by rwa [List.append_nil]
  | cons n names ih =>
    obtain ⟨hn, hplain⟩ := List.forall_mem_cons.1 hplain
    have hrest := ih hplain (gone ++ [n])
    rw [List.append_assoc, List.singleton_append] at hrest
    refine .bind (Q := fun _ s => s.cache = c ∧ Shed v base gone s.drive.volume) ?_ fun kind => ?_
    · refine .file fun s hs => ?_
      rw [FileM.reading_volume]
      split
      · exact hs
      · trivial
    · split
      · exact .bind (sheds_take hlead hn fun w w' h => Volume.exists_of_removeTree h) fun _ => hrest
      · refine .bind (sheds_take hlead hn fun w w' h => ?_) fun _ => hrest
        obtain ⟨r, i, hfind, -, rfl⟩ := Volume.exists_of_removeFile h
        exact ⟨r, i, hfind, rfl⟩

variable {s s' : DiskState}

/-- Clearing finds that the directory is missing, or it takes away what is in it and forgets it. -/
theorem clear_cases (hfaults : Truthful s.drive.faults)
    (hplain : ∀ q n, (s.drive.volume.item? (q ++ [n])).isSome → IsPlain n)
    (hrun : DiskCache.clear.run.run s = (.ok (), s')) :
    (s.drive.volume.readDir s.cache.directory = .error .notFound ∧ s'.cache = s.cache ∧
        s'.drive.volume = s.drive.volume) ∨
      ∃ base, s.drive.volume.LeadsTo s.cache.directory base ∧
        s'.cache = { s.cache with index := {} } ∧
        Shed s.drive.volume base (s.drive.volume.children base) s'.drive.volume := by
  obtain ⟨hdrive, hread⟩ := FileM.reading_truthful (·.readDir s.cache.directory) hfaults
  rw [DiskCache.clear, run_bind_ok (run_get s)] at hrun
  obtain ⟨r, s₁, hlook, hrun⟩ := exists_of_run_bind hrun
  rw [FileM.readDir, DiskM.run_files, hdrive] at hlook
  obtain ⟨hr, rfl⟩ := Prod.mk.inj hlook
  rw [Except.ok.inj hr] at hread
  rcases r with e | names
  · by_cases hmissing : e = .notFound
    · subst hmissing
      left
      refine ⟨?_, ?_⟩
      · rcases hread with hread | ⟨-, e, he, heq⟩
        · exact hread.symm
        · cases heq
          exact absurd rfl he
      · cases hrun
        exact ⟨rfl, rfl⟩
    · split at hrun
      · next heq => exact absurd (Except.error.inj heq) hmissing
      · cases hrun
      · next heq => cases heq
  · right
    have hnames : s.drive.volume.readDir s.cache.directory = .ok names := by
      rcases hread with hread | ⟨-, e, -, heq⟩
      · exact hread.symm
      · cases heq
    obtain ⟨base, hlead, rfl⟩ := Volume.leadsTo_of_readDir hnames
    obtain ⟨_, s₂, hclear, hforget⟩ := exists_of_run_bind hrun
    have hends := sheds_clearNames (c := s.cache) hlead
      (fun n hn => hplain base n (Volume.mem_children.1 hn)) []
    obtain ⟨hcache, hshed⟩ := hends.of_ok
      (s := { s with drive := { s.drive with faults := s.drive.faults.tail } })
      ⟨rfl, .refl _ _⟩ hclear
    cases (DiskM.run_modifyIndex _ s₂).symm.trans hforget
    exact ⟨base, hlead, by rw [hcache], hshed⟩

/-! ## Counting nothing -/

/-- A disk layer that counts nothing: it says so, whatever fails, and it has room for every value that
fits. -/
structure CountsNothing (s : DiskState) : Prop where
  stats : ∀ faults stats s₁, DiskCache.stats.run.run (s.facing faults) = (.ok stats, s₁) →
    stats = ⟨0, 0, s.cache.maxSize⟩
  answers : ∃ s₁, DiskCache.stats.run.run (s.facing []) = (.ok ⟨0, 0, s.cache.maxSize⟩, s₁)
  room : ∀ faults now key (content : ByteArray) s₁, ¬ s.cache.maxSize < UInt64.ofNat content.size →
    DiskCache.ensureIndex.run.run (s.facing faults) = (.ok (), s₁) →
    ∃ index, s₁.cache.reserveFor now key content = some ([], index)

theorem reserveFor_of_empty (hindex : c.index = {}) {now : UInt64} {key : String}
    {content : ByteArray} (hsize : ¬ c.maxSize < UInt64.ofNat content.size) :
    ∃ index, c.reserveFor now key content = some ([], index) := by
  have hfits : (c.index.remove (keyDigest key)).weight + (UInt64.ofNat content.size).toNat ≤
      c.maxSize.toNat := by
    have hnone : (c.index.remove (keyDigest key)).weight = 0 := by
      rw [hindex]
      rfl
    rw [hnone, Nat.zero_add]
    exact UInt64.le_iff_toNat_le.1 (UInt64.not_lt.1 hsize)
  obtain ⟨index, hreserve, -⟩ := DiskIndex.reserve_of_fits
    (e := ⟨key, now, UInt64.ofNat content.size⟩) (hindex ▸ DiskIndex.exact_empty) hfits
  exact ⟨index, hreserve⟩

/-- The index is empty, or is yet to be made of a directory that is empty or missing. -/
structure Bare (s : DiskState) : Prop where
  index : s.cache.seeded = true → s.cache.index = {}
  directory : s.drive.volume.readDir s.cache.directory = .ok [] ∨
    s.drive.volume.readDir s.cache.directory = .error .notFound

theorem Bare.unnamed (h : Bare s) (d : String) : ¬ Named s.drive.volume s.cache.directory d := by
  rintro ⟨names, hnames, n, hn, -⟩
  rcases h.directory with hdir | hdir
  · rw [hdir] at hnames
    cases hnames
    exact List.not_mem_nil hn
  · rw [hdir] at hnames
    cases hnames

theorem Bare.made {c' : DiskCache} (h : Bare s) (hmade : Made s.drive.volume s.cache c') :
    c'.index = {} ∧ c'.maxSize = s.cache.maxSize := by
  refine ⟨?_, hmade.maxSize⟩
  rcases hmade with ⟨hseeded, rfl⟩ | ⟨-, l, index, hfound, hindex, rfl⟩
  · exact h.index hseeded
  · rcases l with _ | ⟨p, l⟩
    · exact (Option.some.inj hindex).symm
    · exact absurd (hfound.digest p (List.mem_cons_self ..)) (h.unnamed p.1)

/-- However the index has been made, it is empty. -/
theorem Bare.index_of_run {s₁ : DiskState} (h : Bare s) (faults : List (Option Fault))
    (hrun : DiskCache.ensureIndex.run.run (s.facing faults) = (.ok (), s₁)) :
    s₁.cache.index = {} ∧ s₁.cache.maxSize = s.cache.maxSize := by
  obtain ⟨c', hmade, rfl, -⟩ := (spares_ensureIndex (v := s.drive.volume) (c := s.cache)).of_ok
    (s := s.facing faults) ⟨rfl, .refl _⟩ hrun
  exact h.made hmade

theorem Bare.exists_index (h : Bare s) :
    ∃ s₁, DiskCache.ensureIndex.run.run (s.facing []) = (.ok (), s₁) := by
  rw [DiskCache.ensureIndex, run_bind_ok (run_get _)]
  rcases hseeded : (s.facing []).cache.seeded with _ | _
  · have hscan : DiskCache.scan.run.run (s.facing []) = (.ok [], s.facing []) := by
      have hlist : (DiskM.files (FileM.readDir s.cache.directory)).run.run (s.facing []) =
          (.ok (s.drive.volume.readDir s.cache.directory), s.facing []) :=
        DiskM.run_files_reading rfl _
      rw [DiskCache.scan, run_bind_ok (run_get _)]
      refine (run_bind_ok hlist).trans ?_
      rcases h.directory with hdir | hdir
      · rw [hdir]
        rfl
      · rw [hdir]
        rfl
    exact ⟨_, run_bind_ok hscan⟩
  · exact ⟨_, rfl⟩

theorem countsNothing_of_bare (h : Bare s) : CountsNothing s := by
  have hstats : ∀ {faults s₁},
      DiskCache.ensureIndex.run.run (s.facing faults) = (.ok (), s₁) →
      DiskCache.stats.run.run (s.facing faults) = (.ok ⟨0, 0, s.cache.maxSize⟩, s₁) := by
    intro faults s₁ hensure
    obtain ⟨hindex, hmax⟩ := h.index_of_run faults hensure
    rw [DiskCache.run_stats hensure, hindex, hmax]
    rfl
  refine ⟨?_, ?_, ?_⟩
  · intro faults stats s₁ hrun
    obtain ⟨_, s₂, hensure, -⟩ := exists_of_run_bind hrun
    rw [hstats hensure] at hrun
    cases hrun
    rfl
  · obtain ⟨s₁, hensure⟩ := h.exists_index
    exact ⟨s₁, hstats hensure⟩
  · intro faults now key content s₁ hsize hensure
    obtain ⟨hindex, hmax⟩ := h.index_of_run faults hensure
    exact reserveFor_of_empty hindex (by rwa [hmax])

/-! ## Clearing -/

theorem Emptied.children_eq_nil (h : Emptied base v w) : w.children base = [] := by
  refine List.eq_nil_iff_forall_not_mem.2 fun n hn => ?_
  have hitem := Volume.mem_children.1 hn
  rw [h, if_pos ⟨⟨[n], rfl⟩, by simp⟩] at hitem
  cases hitem

/-- A volume stays a tree unless relative paths start below the directory that is emptied. -/
theorem Emptied.isTree (hv : v.IsTree) (h : Emptied base v w) (hsame : w.current = v.current)
    (hcurrent : base <+: v.current → v.current = base) : w.IsTree := by
  refine ⟨?_, fun q n hn => ?_⟩
  · rw [hsame, h, if_neg fun hbelow => hbelow.2 (hcurrent hbelow.1)]
    exact hv.current
  · rw [h] at hn
    split at hn
    · cases hn
    · next hkept =>
      rw [h, if_neg, hv.parent q n hn]
      rintro ⟨hbelow, -⟩
      refine hkept ⟨hbelow.trans ⟨[n], rfl⟩, ?_⟩
      rintro rfl
      simpa using hbelow.length_le

/-- The directory is missing while the index, which has been made before, is not empty. -/
def DiskState.Outlived (s : DiskState) : Prop :=
  s.drive.volume.readDir s.cache.directory = .error .notFound ∧ s.cache.seeded = true ∧
    s.cache.index ≠ {}

namespace DiskCache

/-- **Clearing leaves nothing**: when it answers, nothing is left below the directory and everything
else is as it was. The cache then counts nothing and stores every value that fits without dropping
another, unless the directory was missing while the index was not empty. Then the index stays, and the
cache goes on counting what it counted. -/
theorem clear_empties (hv : s.drive.volume.IsTree)
    (hplain : ∀ q n, (s.drive.volume.item? (q ++ [n])).isSome → IsPlain n)
    (hcurrent : ∀ base, s.drive.volume.LeadsTo s.cache.directory base →
      base <+: s.drive.volume.current → s.drive.volume.current = base)
    (hfaults : Truthful s.drive.faults) (hrun : clear.run.run s = (.ok (), s')) :
    (∀ base, s.drive.volume.LeadsTo s.cache.directory base →
      Emptied base s.drive.volume s'.drive.volume) ∧
    (¬ s.Outlived → CountsNothing s') ∧
    (s.Outlived → ∀ faults, stats.run.run (s'.facing faults) =
      (.ok ⟨s.cache.index.entries.size, s.cache.index.totalSize, s.cache.maxSize⟩,
        s'.facing faults)) := by
  rcases clear_cases hfaults hplain hrun with ⟨hmissing, hcache, hvolume⟩ |
    ⟨base, hlead, hcache, hshed⟩
  · refine ⟨fun base hlead => ?_, fun hnot => countsNothing_of_bare ⟨fun hseeded => ?_, ?_⟩,
      fun hold faults => ?_⟩
    · rw [hlead.readDir] at hmissing
      cases hmissing
    · rw [hcache] at hseeded ⊢
      by_contra hindex
      exact hnot ⟨hmissing, hseeded, hindex⟩
    · rw [hcache, hvolume]
      exact .inr hmissing
    · have hseeded : (s'.facing faults).cache.seeded = true := by
        rw [DiskState.facing, hcache]
        exact hold.2.1
      rw [run_stats (ensureIndex_of_seeded hseeded), DiskState.facing, hcache]
  · have hempty := hshed.emptied hv
    have htree : s'.drive.volume.IsTree :=
      hempty.isTree hv hshed.sparser.within.current.symm (hcurrent base hlead)
    refine ⟨fun base' hlead' => ?_, fun _ => countsNothing_of_bare ⟨fun _ => ?_, ?_⟩, fun hold => ?_⟩
    · rw [hlead'.unique hlead]
      exact hempty
    · rw [hcache]
    · rw [hcache, ← hempty.children_eq_nil]
      exact hlead.readDir_or_missing hshed.sparser.within htree
    · have hmissing := hold.1
      rw [hlead.readDir] at hmissing
      cases hmissing

/-- Clearing a directory with one sub-directory in it. -/
theorem run_clear_directory (hfaults : s.drive.faults = [])
    (hlist : s.drive.volume.readDir s.cache.directory = .ok [n])
    (hkind : s.drive.volume.linkMetadata (Path.join s.cache.directory n) = .ok .directory)
    (hremove : s.drive.volume.removeTree (Path.join s.cache.directory n) = .ok w) :
    clear.run.run s = (.ok (), ⟨{ s.cache with index := {} }, ⟨w, []⟩⟩) := by
  have htake : (DiskM.file (Path.join s.cache.directory n)
      (FileM.removeTree (Path.join s.cache.directory n))).run.run s =
      (.ok (), { s with drive := ⟨w, []⟩ }) := by
    rw [DiskM.run_file, FileM.removeTree, FileM.writing_faultless hfaults, hremove]
    rfl
  have hnames : (clearNames s.cache.directory [n]).run.run s =
      (.ok (), { s with drive := ⟨w, []⟩ }) := by
    rw [clearNames, run_bind_ok (DiskM.run_file_reading hfaults _ hkind)]
    simp only [Item.isDirectory, if_true]
    rw [run_bind_ok htake]
    rfl
  rw [clear, run_bind_ok (run_get s)]
  refine (run_bind_ok (DiskM.run_files_reading hfaults _)).trans ?_
  rw [hlist]
  exact run_bind_ok hnames

/-- What is in a sub-directory goes with it, and a file beside the directory stays. -/
theorem clear_empties_notes : ∃ s', clear.run.run ⟨DiskCache.new ⟨"cache", 10⟩, ⟨notesVolume, []⟩⟩ =
      (.ok (), s') ∧ CountsNothing s' ∧
    s'.drive.volume.item? ["cache", "docs", "notes.json"] = none ∧
    s'.drive.volume.item? ["notes.json"] = some (.file "hello".toUTF8) := by
  have hrun := run_clear_directory (s := ⟨DiskCache.new ⟨"cache", 10⟩, ⟨notesVolume, []⟩⟩) rfl
    leadsTo_notesVolume.readDir
    (leadsTo_notesVolume.linkMetadata_join isPlain_docs (by decide) rfl (by simp))
    (leadsTo_notesVolume.removeTree_join isPlain_docs (by decide) rfl)
  obtain ⟨hempty, hcounts, -⟩ := clear_empties unlinked_notesVolume.toIsTree
    unlinked_notesVolume.name (fun base hlead hbelow => (List.prefix_nil.1 hbelow).symm) truthful_nil
    hrun
  have hitem := hempty ["cache"] leadsTo_notesVolume
  refine ⟨_, hrun, hcounts fun hold => ?_, ?_, ?_⟩
  · cases hold.2.1
  · rw [hitem, if_pos (by decide)]
  · rw [hitem, if_neg (by decide)]
    rfl

/-- It is not so that a cache counts nothing after clearing: what it has stored goes on being counted
if the directory has been taken away since. -/
theorem clear_keeps_outlived : ¬ ∀ (settings : DiskSettings) (drive : Drive) (s s' : DiskState)
    (calls : List (DiskCall × Except CacheError DiskAnswer)) (found : Volume),
    Runs ⟨DiskCache.new settings, drive⟩ calls s →
    clear.run.run { s with drive := ⟨found, []⟩ } = (.ok (), s') →
    ∀ answer s₁, stats.run.run s' = (.ok answer, s₁) → answer.entries = 0 ∧ answer.totalSize = 0 := by
  intro hclaim
  obtain ⟨-, s, -, sc, hruns, -, -, -, -, hseeded, -, hcounted, -⟩ := exists_byte 10 (by decide)
  have hdirectory : s.cache.directory = "cache" :=
    (sound_of_runs hruns fun c hc n => by rw [List.mem_singleton.1 hc]; simp).counted.directory
  let gone : DiskState := { s with drive := ⟨{}, []⟩ }
  have hmissing : gone.drive.volume.readDir gone.cache.directory = .error .notFound := by
    change Volume.readDir {} s.cache.directory = _
    rw [hdirectory, Volume.readDir, Volume.find_of_missing (.inr ⟨["cache"], ?_⟩)]
    · rfl
    · rw [Volume.resolve_eq_walk isPlain_cache.ne_empty isPlain_cache.unended (by decide),
        Path.isAbsolute_of_unslashed isPlain_cache.unslashed,
        Path.split_unslashed isPlain_cache.unslashed]
      exact Volume.walk_cons_missing (Volume.item?_nil _) isPlain_cache.toIsName rfl
  have hclear : clear.run.run gone = (.ok (), gone) := by
    rw [clear, run_bind_ok (run_get gone)]
    refine (run_bind_ok (DiskM.run_files_reading rfl _)).trans ?_
    rw [hmissing]
    rfl
  have hstats := run_stats (ensureIndex_of_seeded (s := gone) hseeded)
  have hnone := (hclaim _ _ s gone _ {} hruns hclear _ _ hstats).1
  have hentries : s.cache.index.entries.entries = [] := List.length_eq_zero_iff.1 hnone
  have hmem := NameMap.get?_eq_some_iff.1 hcounted
  rw [hentries] at hmem
  exact List.not_mem_nil hmem

end DiskCache

end CodeGraph.Cache
