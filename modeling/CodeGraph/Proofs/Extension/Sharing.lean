import CodeGraph.Proofs.Extension.Caching
import CodeGraph.Proofs.Volume.Straight

/-!
# Parses that share a cache

A session goes on for a while (`Reaches`): caches are opened one after the other, with settings that
may differ but on disk in one place, files are created, edited and removed beside that place, and
parses go on while waiting writes are carried out or lost and time passes. Each parse then gives what
the same parse gives in the same session without a cache (`parse_as_without_cache`).

Different contents that have been read have different digests. Nothing is asked of the digests of
keys, since the keys themselves are compared. The facts that have been found out, each counted once,
come to a number of bytes that can be told in 64 bits, as the totals of a cache are.
-/

namespace CodeGraph.FileTree

open Cache (LayeredCache Untouched Fresh)

/-- Parses that share a cache, on disk in one place if at all, with what they have read. -/
inductive Reaches (place : Option String) (start : Session) : List Sighting → Session → Prop
  | start : Reaches place start [] start
  /-- A cache is opened, with any settings, instead of the one before. -/
  | opened {l : List Sighting} {s : Session} {settings : Cache.Settings} {running : Bool}
      {c : LayeredCache FileFacts} : Reaches place start l s →
      (settings.useDisk = true → place = some settings.disk.directory) →
      LayeredCache.new settings running = .ok c → Reaches place start l { s with facts := some c }
  | parsed {l : List Sighting} {c : ParseContext} {s s' : Session}
      {r : Except PhaseFailure ExtensionOutput} : Reaches place start l s → Proper c s →
      Parses c s r s' → Reaches place start (sightings c s ++ l) s'
  | meanwhile {l : List Sighting} {s s' : Session} : Reaches place start l s → Meanwhile s s' →
      Reaches place start l s'
  /-- Others go on in the session. -/
  | turned {l : List Sighting} {s : Session} {ids : IdGenerator} {clock : UInt64}
      {person : Ignore.Person} : Reaches place start l s →
      Reaches place start l { s with ids, clock, person }
  /-- Files are created, edited and removed outside of the place of the cache. -/
  | changed {l : List Sighting} {s : Session} {w : Volume} : Reaches place start l s →
      (∀ dir, place = some dir → Untouched dir s.drive.volume w) →
      Reaches place start l { s with drive := ⟨w, []⟩ }

variable {k : Cache.Findings FileFacts} {place : Option String} {c : ParseContext}
  {start s : Session} {l : List Sighting}

/-- All that is kept is among what has been found out. -/
theorem Reaches.kept (h : Reaches place start l s)
    (hfresh : ∀ dir, place = some dir → Fresh start.drive.volume dir)
    (hfaults : start.drive.faults = []) (hnone : start.facts = none) (hk : k.Sound)
    (hl : ∀ f ∈ l, f.finding ∈ k) : Kept k place s := by
  induction h with
  | start =>
    refine ⟨hfaults, fun dir hdir => .of_fresh rfl (hfresh dir hdir) hfaults, ?_⟩
    rw [hnone]
    exact fun c hc => by cases hc
  | @opened l s settings running c _ hplace hnew ih =>
    have hkept := ih hl
    refine ⟨hkept.faultless, hkept.disk, ?_⟩
    intro c' hc'
    cases hc'
    exact .of_new hnew fun huse =>
      ⟨_, hplace huse, (hkept.disk _ (hplace huse)).reopen rfl⟩
  | @parsed l c s s' r _ hproper hparses ih =>
    obtain ⟨hfound, hl⟩ := List.forall_mem_append.1 hl
    exact (hparses.answer (ih hl) hk hproper hfound).2
  | meanwhile _ hstep ih => exact ((ih hl).meanwhile hk hstep).1
  | turned _ ih => exact ⟨(ih hl).faultless, (ih hl).disk, (ih hl).cache⟩
  | @changed l s w _ hw ih =>
    have hkept := ih hl
    refine ⟨rfl, fun dir hdir => (hkept.disk dir hdir).untouched (hw dir hdir), ?_⟩
    intro c hc
    exact (hkept.cache c hc).untouched hw

/-! ## A file that is edited -/

/-- A directory with one file, and an empty directory beside it. -/
def projectVolume (content : ByteArray) : Volume :=
  ⟨[(["cache"], .directory), (["src"], .directory), (["src", "a.rs"], .file content)], []⟩

def projectBefore : ByteArray := "fn main() {}\n".toUTF8

def projectAfter : ByteArray := "fn main() { run() }\n".toUTF8

/-- What there is to read before and after the edit. -/
def projectFiles : List Sighting :=
  [⟨"a.rs", projectAfter⟩, ⟨"a.rs", projectBefore⟩]

def projectContext : ParseContext :=
  ⟨"src", .null⟩

/-- The default settings, in the empty directory. -/
def projectSettings : Cache.Settings :=
  { disk := { directory := "cache" } }

/-- A new cache with these settings. -/
def projectCache : LayeredCache FileFacts where
  memory := .new projectSettings.memory
  disk := some { cache := .new projectSettings.disk, capacity := 1024 }

def projectStart : Session :=
  { ids := default, drive := ⟨projectVolume projectBefore, []⟩ }

/-- The session before the file is read for the first time. -/
def projectOpened : Session :=
  { projectStart with facts := some projectCache }

/-- The session once the file has been read and then edited. -/
def projectEdited : Session :=
  { ((parse projectContext).run.run projectOpened).2 with
    drive := ⟨projectVolume projectAfter, []⟩ }

theorem leadsTo_project (content : ByteArray) {n : String} (hn : n ∈ ["cache", "src"]) :
    (projectVolume content).LeadsTo n [n] := by
  simp only [List.mem_cons, List.not_mem_nil, or_false] at hn
  rcases hn with rfl | rfl <;> exact Volume.leadsTo_name rfl (by decide) rfl

theorem fresh_project (content : ByteArray) : Fresh (projectVolume content) "cache" := by
  refine ⟨⟨"cache", ["cache"], projectVolume content, leadsTo_project content (by simp), ?_,
    by decide⟩, rfl, .inl rfl⟩
  intro r hr
  rw [Volume.item?_of_ne_nil _ (by simp)]
  simp [projectVolume, hr]

theorem untouched_project (a b : ByteArray) :
    Untouched "cache" (projectVolume a) (projectVolume b) := by
  have hleads := leadsTo_project a (n := "cache") (by simp)
  refine ⟨?_, ?_, ?_, ?_⟩
  · intro q hq
    obtain rfl := hleads.unique hq
    refine Volume.leadsTo_name rfl (by decide) ?_
    rw [Volume.item?_emptied]
    rfl
  · intro q hq r
    obtain rfl := hleads.unique hq
    rw [Volume.item?_of_ne_nil _ (by simp), Volume.item?_of_ne_nil _ (by simp)]
    simp [projectVolume, List.lookup_cons]
  · intro q hq
    obtain rfl := hleads.unique hq
    exact List.nodup_nil
  · intro hmissing
    rw [hleads.readDir] at hmissing
    cases hmissing

theorem unlinked_project (content : ByteArray) : (projectVolume content).Unlinked := by
  refine .of_entries rfl fun e he => ?_
  simp only [projectVolume, List.mem_cons, List.not_mem_nil, or_false] at he
  rcases he with rfl | rfl | rfl
  · exact ⟨[], "cache", rfl, rfl, by decide, by simp⟩
  · exact ⟨[], "src", rfl, rfl, by decide, by simp⟩
  · exact ⟨["src"], "a.rs", rfl, rfl, by decide, by simp⟩

theorem plainNames_project (content : ByteArray) : (projectVolume content).PlainNames :=
  (unlinked_project content).name

theorem find_project {content : ByteArray} {p : String}
    (hp : (projectVolume content).LeadsTo p ["src"]) (follow : Bool) :
    (projectVolume content).find follow p = .ok (["src"], .directory) :=
  Volume.Straight.find (.leads hp) (unlinked_project content) hp.short hp.item? follow

theorem proper_project {s : Session} {content : ByteArray}
    (hs : s.drive.volume = projectVolume content) (ht : Timely s) : Proper projectContext s := by
  refine ⟨?_, by rw [hs]; exact plainNames_project content, ht⟩
  intro q file hq
  rw [hs] at hq
  cases (find_project (leadsTo_project content (by simp)) true).symm.trans hq

/-- A walk comes to the file unless the rules of the one who walks leave it out. -/
theorem entries_project {content : ByteArray} {p : String}
    (hp : (projectVolume content).LeadsTo p ["src"]) (hdash : p ≠ "-") (person : Ignore.Person)
    (hidden : Bool) (exclude : List Glob) :
    (⟨projectVolume content, person, hidden, exclude⟩ : Walk).entries p ⊆
      [⟨".", p, true⟩, ⟨"a.rs", Path.join p "a.rs", false⟩] := by
  have hlink : (projectVolume content).linkMetadata p = .ok .directory := by
    rw [Volume.linkMetadata, find_project hp]
    rfl
  have hdepth : Walk.depth (projectVolume content) = 2 := rfl
  have hnames : (NameSet.ofNames ((projectVolume content).children ["src"])).names = ["a.rs"] := rfl
  have hitem : (projectVolume content).item? ["src", "a.rs"] = some (.file content) := rfl
  rw [Walk.entries, if_neg hdash]
  simp only [hlink, find_project hp, hdepth, Walk.below, hnames, List.flatMap_cons,
    List.flatMap_nil, List.append_nil, List.nil_append, List.cons_append, hitem]
  refine List.cons_subset_cons _ ?_
  split
  · exact List.Subset.refl _
  · exact List.nil_subset _

theorem sightings_project {s : Session} {content : ByteArray} {c : ParseContext}
    (hs : s.drive.volume = projectVolume content)
    (hp : (projectVolume content).LeadsTo c.root ["src"]) (hdash : c.root ≠ "-")
    (hsettings : readSettings c.settings = .ok ({}, [])) :
    sightings c s ⊆ [⟨"a.rs", content⟩] := by
  have hread : ∀ found, ((projectVolume content).readFile (Path.join c.root "a.rs")).toOption =
      some found → found = content := by
    intro found hfound
    rw [((Volume.Straight.leads hp).join (by decide)).toOption_readFile
      (unlinked_project content)] at hfound
    exact (Option.some.inj (Option.ite_none_right_eq_some.1 hfound).2).symm
  intro f hf
  rw [sightings, hsettings] at hf
  obtain ⟨e, he, hsighting⟩ := List.mem_filterMap.1 hf
  rw [walkOf, hs] at he
  have he := entries_project hp hdash s.person _ [] he
  simp only [List.mem_cons, List.not_mem_nil, or_false] at he
  rcases he with rfl | rfl
  · cases hsighting
  · rw [hs, sightingIn?, if_neg Bool.false_ne_true, contentIn?] at hsighting
    obtain ⟨found, hfound, rfl⟩ := Option.map_eq_some_iff.1 hsighting
    split at hfound
    · cases hfound
    split at hfound
    · rw [hread found hfound]
      exact List.mem_singleton_self _
    · cases hfound

theorem sightings_projectContext {s : Session} {content : ByteArray}
    (hs : s.drive.volume = projectVolume content) :
    sightings projectContext s ⊆ [⟨"a.rs", content⟩] :=
  sightings_project hs (leadsTo_project content (n := "src") (by simp)) (by decide) rfl

theorem distinct_project : Distinct projectFiles := by
  have hne : Cache.contentHash projectAfter ≠ Cache.contentHash projectBefore := by decide +kernel
  intro f hf g hg heq
  simp only [projectFiles, List.mem_cons, List.not_mem_nil, or_false] at hf hg
  rcases hf with rfl | rfl <;> rcases hg with rfl | rfl
  · rfl
  · exact absurd heq hne
  · exact absurd heq.symm hne
  · rfl

theorem weight_project : (findings projectFiles).weight < UInt64.size := by
  decide +kernel

theorem timely_projectOpened : Timely projectOpened := by
  rintro c hc t ht
  cases hc
  cases ht
  decide

theorem new_projectCache : LayeredCache.new projectSettings true = .ok projectCache := rfl

theorem reaches_projectOpened : Reaches (some "cache") projectStart [] projectOpened :=
  .opened .start (fun _ => rfl) new_projectCache

theorem reaches_projectEdited :
    Reaches (some "cache") projectStart (sightings projectContext projectOpened ++ [])
      projectEdited ∧ Timely projectEdited := by
  have hproper := proper_project (s := projectOpened) rfl timely_projectOpened
  have hsound := sound_findings distinct_project weight_project
  have hkept := reaches_projectOpened.kept
    (fun dir hdir => by cases hdir; exact fresh_project _) rfl rfl hsound (by simp)
  -- The run is not evaluated: it is enough that it leaves the files and the clock as they are.
  obtain ⟨facts, hrun, htimely⟩ := hkept.run_parse hsound hproper fun f hf =>
    mem_findings.2 ⟨f, List.mem_cons_of_mem _ (sightings_projectContext rfl hf), rfl⟩
  have hparsed := reaches_projectOpened.parsed hproper (parses_run projectContext projectOpened)
  rw [projectEdited]
  refine ⟨hparsed.changed ?_, by rw [hrun]; exact htimely⟩
  rw [hrun]
  intro dir hdir
  cases hdir
  exact untouched_project _ _

/-! ## With a cache and without -/

/-- **A parse with a cache gives what it gives without one**, whatever has happened to the cache and
to the files before, and whatever happens to the cache meanwhile. -/
theorem parse_as_without_cache
    (hfresh : ∀ dir, place = some dir → Fresh start.drive.volume dir)
    (hfaults : start.drive.faults = []) (hnone : start.facts = none)
    (hreach : Reaches place start l s) (hproper : Proper c s)
    (hdistinct : Distinct (sightings c s ++ l))
    (hwords : (findings (sightings c s ++ l)).weight < UInt64.size) :
    ∃ r s', (parse c).run.run { s with facts := none } = (r, s') ∧
      (∃ facts, (parse c).run.run s = (r, { s with facts, ids := s'.ids })) ∧
      ∀ r' t, Parses c s r' t → r' = r ∧ t.ids = s'.ids := by
  have hsound := sound_findings hdistinct hwords
  obtain ⟨hfound, hl⟩ := List.forall_mem_append.1 fun f hf => mem_findings.2 ⟨f, hf, rfl⟩
  have hkept := hreach.kept hfresh hfaults hnone hsound hl
  obtain ⟨facts, hwithout, -⟩ := hkept.without.run_parse hsound
    ⟨hproper.root, hproper.names, fun c hc => by cases hc⟩ hfound
  obtain ⟨facts', hwith, -⟩ := hkept.run_parse hsound hproper hfound
  refine ⟨_, _, hwithout, ⟨facts', hwith⟩, ?_⟩
  intro r' t hparses
  exact Prod.mk.inj (hparses.answer hkept hsound hproper hfound).1

/-- The file is read again after the edit. -/
theorem parse_as_without_cache_edited :
    ∃ r s', (parse projectContext).run.run { projectEdited with facts := none } = (r, s') ∧
      (∃ facts, (parse projectContext).run.run projectEdited =
        (r, { projectEdited with facts, ids := s'.ids })) ∧
      ∀ r' t, Parses projectContext projectEdited r' t → r' = r ∧ t.ids = s'.ids := by
  obtain ⟨hreach, htimely⟩ := reaches_projectEdited
  have hfiles : sightings projectContext projectEdited ++
      (sightings projectContext projectOpened ++ []) ⊆ projectFiles := by
    intro f hf
    rw [List.append_nil] at hf
    rcases List.mem_append.1 hf with hf | hf
    · exact List.mem_cons.2 (.inl (List.mem_singleton.1 (sightings_projectContext rfl hf)))
    · exact List.mem_cons_of_mem _ (sightings_projectContext rfl hf)
  exact parse_as_without_cache (fun dir hdir => by cases hdir; exact fresh_project _) rfl rfl hreach
    (proper_project rfl htimely) (distinct_project.of_subset hfiles)
    (Nat.lt_of_le_of_lt (weight_findings_le hfiles) weight_project)

end CodeGraph.FileTree
