import CodeGraph.Proofs.CommandLine.Building
import CodeGraph.Proofs.Extension.Sharing
import CodeGraph.Proofs.Pipeline.Latest
import CodeGraph.Proofs.Pipeline.Repeated
import CodeGraph.Proofs.Repository.Sparing

/-!
# Builds that follow one another

A build writes the graph and the cache where the configuration says. As long as these places are not
seen by a walk, and the files of the configuration are not among them, the next build works on the
same as the one before (`Ready.exists_build`). So however many builds follow one another, at whatever
times, they give the same nodes but for the times (`builds_alike`).

What builds look at is told on the host on which they begin. Of a later host it is asked that nothing
there has changed since (`Since`).
-/

namespace CodeGraph.CommandLine

open Cache (Findings Untaken)
open Cache.LayeredCache (TruthfulDisk)
open FileTree (Kept Resembles Seen Walkable)
open Preparation (personOf flushed)
open Volume (LeftAlone)

variable {k : Findings FileFacts} {o : BuildOptions} {g : GlobalOptions} {root graphs : List String}
  {files : List (List String)} {u : Preparation} {h h' : Host} {now : UInt64}

/-! ## Where a build writes -/

/-- The directory of the cache, if it is on disk. -/
def Preparation.place? (u : Preparation) : Option String :=
  (u.facts.bind (·.disk)).map (·.cache.directory)

/-- The time to live of the cache leads to a time that can be told. -/
def Preparation.Timely (u : Preparation) (now : UInt64) : Prop :=
  ∀ cache, u.facts = some cache → ∀ t, cache.memory.ttl = some t →
    now.toNat + t.toNat < UInt64.size

/-- What builds look at: what a walk sees, and files of the configuration. -/
def LookedAt (root : List String) (files : List (List String)) (q : List String) : Prop :=
  Seen root q ∨ q ∈ files

/-- There is room for graphs at a place, and the cache holds nothing but what has been found out. -/
structure Usable (k : Findings FileFacts) (graphs : List String) (u : Preparation) (h : Host) :
    Prop where
  faultless : h.drive.faults = []
  way : ∀ r, r <+: graphs → h.drive.volume.contentAt? r = none
  documents : ∀ n, h.drive.volume.item? (graphs ++ [n]) ≠ some .directory
  disk : ∀ dir, u.place? = some dir → TruthfulDisk k dir ⟨.new { directory := dir }, h.drive⟩

/-- A host on which builds can follow one another: the workspace can be walked and the configuration
read, and the places of graphs and cache are apart from each other and from what builds look at. -/
structure Ready (k : Findings FileFacts) (o : BuildOptions) (g : GlobalOptions)
    (root graphs : List String) (files : List (List String)) (u : Preparation) (h : Host) : Prop
    extends Usable k graphs u h where
  walkable : Walkable root (personOf h) h.drive.volume
  worksAt : WorksAt g h.drive.volume root
  configured : ∀ path ∈ configurationFiles g h.home (Path.ofParts true root),
    ∃ q ∈ files, h.drive.volume.Straight path q
  prepared : ∃ c, (configurationOf g (Path.ofParts true root)).run.run h = (.ok c, h) ∧
    (prepare o (Path.ofParts true root) c).run.run h = (.ok u, h)
  straight : h.drive.volume.Straight u.repository.directory graphs
  /-- The path of a document is not too long. -/
  short : u.repository.directory.utf8ByteSize + 32 ≤ Volume.longestPath
  clears : h.drive.volume.Clears (LookedAt root files) graphs
  cache : ∀ dir, u.place? = some dir → ∃ q, h.drive.volume.Straight dir q ∧
    h.drive.volume.Clears (LookedAt root files) q ∧ ¬ graphs <+: q ∧ ¬ q <+: graphs
  sound : k.Sound
  found : u.pipeline.Found k root (personOf h) h.drive.volume

/-- What has changed on a host since the builds began leaves alone what they look at. -/
structure Since (k : Findings FileFacts) (root graphs : List String) (files : List (List String))
    (u : Preparation) (h h' : Host) : Prop extends Usable k graphs u h' where
  home : h'.home = h.home
  environment : h'.environment = h.environment
  spared : LeftAlone (LookedAt root files) Untaken h.drive.volume h'.drive.volume

/-- A place in the directory of this program's data clears what builds look at, unless a file of the
configuration is in its way. -/
theorem clears_of_data {v : Volume} {q : List String} (hroot : v.item? root = some .directory)
    (hq : root ++ [FileTree.dataDirectory] <+: q) (hfiles : ∀ f ∈ files, ¬ f <+: q ∧ ¬ q <+: f) :
    v.Clears (LookedAt root files) q := by
  refine ⟨fun r hr => ?_, fun r hr hlooked => ?_⟩
  · rcases hr with ⟨-, hdata⟩ | hfile
    · exact hdata (hq.trans (List.prefix_append q r))
    · exact (hfiles _ hfile).2 (List.prefix_append q r)
  · rcases hlooked with ⟨hbelow, hdata⟩ | hfile
    · rcases List.prefix_or_prefix_of_prefix hr hq with hshort | hlong
      · rcases List.prefix_concat_iff.1 hshort with rfl | habove
        · exact absurd (List.prefix_refl _) hdata
        · obtain rfl := hbelow.eq_of_length_le habove.length_le
          exact hroot
      · exact absurd hlong hdata
    · exact absurd hr (hfiles r hfile).1

theorem Ready.since (hr : Ready k o g root graphs files u h) : Since k root graphs files u h h :=
  ⟨hr.toUsable, rfl, rfl, .refl hr.walkable.unlinked⟩

/-- A clock has no part in it. -/
theorem Since.tick (hs : Since k root graphs files u h h') (now : UInt64) :
    Since k root graphs files u h { h' with clock := now } :=
  ⟨⟨hs.faultless, hs.way, hs.documents, hs.disk⟩, hs.home, hs.environment, hs.spared⟩

/-! ## The identifier of a graph -/

theorem utf8ByteSize_unfinishedName (codebase : String) (t : UInt64) :
    (FileRepository.unfinishedName (GraphMetadata.identifier codebase t)).utf8ByteSize = 31 := by
  obtain ⟨l, hl, hlength, hdigits⟩ := GraphMetadata.exists_identifier codebase t
  have hunfinished : ".json.tmp".utf8ByteSize = 9 := rfl
  have hgraph : "graph_".utf8ByteSize = 6 := rfl
  rw [FileRepository.unfinishedName, hl, String.utf8ByteSize_append, String.utf8ByteSize_append,
    Cache.utf8ByteSize_ofList fun c hc => Cache.utf8Size_of_mem_digits (hdigits c hc), hlength,
    hunfinished, hgraph]

/-- Names of documents, finished or not, are such as a cache may use too. -/
theorem not_untaken_document {id n : String}
    (hn : n = FileRepository.documentName id ∨ n = FileRepository.unfinishedName id)
    (q : List String) : ¬ Untaken (q ++ [n]) := by
  rcases hn with rfl | rfl
  · exact Cache.not_untaken (.inl rfl) q
  · rw [FileRepository.unfinishedName, show ".json.tmp" = ".json" ++ ".tmp" by decide,
      ← String.append_assoc]
    exact Cache.not_untaken (.inr (.inr rfl)) q

/-! ## One build -/

/-- A cache that uses the disk is in the directory of its settings. -/
theorem directory_of_new {V : Type} [Json.Form V] {settings : Cache.Settings} {running : Bool}
    {cache : Cache.LayeredCache V} (hnew : Cache.LayeredCache.new settings running = .ok cache)
    (huse : settings.useDisk = true) :
    cache.disk.map (·.cache.directory) = some settings.disk.directory := by
  simp only [Cache.LayeredCache.new, huse, Bool.not_true, Bool.false_eq_true, if_false] at hnew
  split at hnew
  · cases hnew
  split at hnew
  · cases hnew
  · cases hnew
    rfl

/-- The session of a build sees what the first one saw. -/
theorem Ready.resembles (hr : Ready k o g root graphs files u h)
    (hs : Since k root graphs files u h h') (ht : u.Timely now) :
    Resembles k u.place? root (personOf h) h.drive.volume (u.session { h' with clock := now }) := by
  obtain ⟨c, -, hprepare⟩ := hr.prepared
  obtain ⟨-, -, hnew⟩ := of_prepare hprepare
  refine ⟨⟨hs.faultless, hs.disk, fun cache hcache => ?_⟩, ht, ?_, hs.spared.mono (fun _ => .inl)
    fun _ hq => hq⟩
  · refine .of_new (hnew cache hcache) fun huse => ?_
    have hplace := directory_of_new (hnew cache hcache) huse
    rw [← Option.bind_some (f := (·.disk)) (a := cache), ← hcache] at hplace
    exact ⟨_, hplace, (hs.disk _ hplace).reopen rfl⟩
  · simp only [Preparation.session, personOf, hs.home, hs.environment]

/-- The preparation of a build is that of the first one. -/
theorem Ready.run_build (hr : Ready k o g root graphs files u h)
    (hs : Since k root graphs files u h h') :
    (build o g).run.run h' = u.make.run.run h' := by
  obtain ⟨c, hconfiguration, hprepare⟩ := hr.prepared
  have hv := hr.walkable.unlinked
  have hagain : ∀ path ∈ configurationFiles g h.home (Path.ofParts true root),
      ReadAgain h.drive.volume h'.drive.volume path := by
    intro path hpath
    obtain ⟨q, hq, hstraight⟩ := hr.configured path hpath
    exact ⟨hs.spared.isOk_metadata_eq hv hstraight (.inr hq),
      hs.spared.readText_eq hv hstraight (.inr hq)⟩
  rw [build, run_bind_ok (run_workspaceOf (hr.worksAt.spared hv hs.spared)),
    run_bind_ok (configurationOf_again hr.faultless hs.faultless hs.home hagain hconfiguration),
    run_bind_ok ((detached_prepare o _ c).eq_of_run hprepare).2]

/-- A graph is saved and leaves alone what builds look at and the cache. -/
theorem Ready.exists_save (hr : Ready k o g root graphs files u h)
    (hs : Since k root graphs files u h h') {p : PropertyGraph} {t : UInt64}
    (hid : p.id = GraphMetadata.identifier (Path.ofParts true root) t) :
    ∃ w, (u.repository.save p).run.run h'.drive = (.ok (), ⟨w, []⟩) ∧
      LeftAlone (LookedAt root files) Untaken h'.drive.volume w ∧
      w.item? graphs = some .directory ∧ (∀ n, w.item? (graphs ++ [n]) ≠ some .directory) ∧
      ∀ dir, u.place? = some dir → Cache.Untouched dir h'.drive.volume w := by
  have hv := hr.walkable.unlinked
  have hp := hs.spared.straight hv hr.straight
  have hsize := utf8ByteSize_unfinishedName (Path.ofParts true root) t
  have hshort := hr.short
  have hvalid := GraphMetadata.isValidId_identifier (Path.ofParts true root) t
  rw [← hid] at hsize hvalid
  obtain ⟨w, hsave, hdirectory, hdocuments⟩ := FileRepository.exists_save hvalid hs.spared.unlinked
    hp hs.way (by rw [hsize]; decide) (by omega) hs.documents
  have hdrive : h'.drive = ⟨h'.drive.volume, []⟩ := by rw [← hs.faultless]
  rw [← hdrive] at hsave
  refine ⟨w, hsave, ?_, hdirectory, hdocuments, fun dir hdir => ?_⟩
  · exact FileRepository.spared_of_save hs.spared.unlinked hp (hr.clears.spared hs.spared)
      (fun n hn => not_untaken_document hn _) hsave
  · obtain ⟨q, hstraight, -, hbelow, habove⟩ := hr.cache dir hdir
    refine (hs.disk dir hdir).untouched_of_spared hs.spared.unlinked
      (hs.spared.straight hv hstraight) ?_
    exact FileRepository.spared_of_save hs.spared.unlinked hp (.of_apart habove hbelow)
      (fun n _ hn => hbelow ((List.prefix_append graphs [n]).trans hn)) hsave

/-- Bringing the cache to disk leaves alone what builds look at and the graphs. -/
theorem Ready.exists_flushed (hr : Ready k o g root graphs files u h) (now : UInt64) {w : Volume}
    (hw : LeftAlone (LookedAt root files) Untaken h.drive.volume w) {s : Session}
    (hs : Kept k u.place? s) (hdrive : s.drive = ⟨w, []⟩) :
    (flushed now s).faults = [] ∧
      LeftAlone (fun q => LookedAt root files q ∨ graphs <+: q) Untaken w (flushed now s).volume ∧
      ∀ dir, u.place? = some dir →
        TruthfulDisk k dir ⟨.new { directory := dir }, flushed now s⟩ := by
  have hrefl : LeftAlone (fun q => LookedAt root files q ∨ graphs <+: q) Untaken w
      s.drive.volume := by
    rw [hdrive]
    exact .refl hw.unlinked
  have hclears : ∀ dir, u.place? = some dir → ∃ q, w.Straight dir q ∧
      w.Clears (fun q => LookedAt root files q ∨ graphs <+: q) q := by
    intro dir hdir
    obtain ⟨q, hstraight, hclears, hbelow, habove⟩ := hr.cache dir hdir
    exact ⟨q, hw.straight hr.walkable.unlinked hstraight,
      (hclears.spared hw).or (.of_apart hbelow habove)⟩
  rw [flushed]
  split
  · exact ⟨hs.faultless, hrefl, hs.disk⟩
  · next cache hcache =>
    obtain ⟨after, hrun, hkept, hspared⟩ :=
      hs.flush hr.sound hcache now hw.unlinked hclears hrefl
    rw [hrun]
    exact ⟨hkept.faultless, hspared, hkept.disk⟩

/-- **A build succeeds and leaves alone what the next one works on.** -/
theorem Ready.exists_build (hr : Ready k o g root graphs files u h) :
    ∃ nodes : NameMap Node, ∀ h' now, Since k root graphs files u h h' → u.Timely now →
      ∃ b h'', (build o g).run.run { h' with clock := now } = (.ok b, h'') ∧
        Since k root graphs files u h h'' ∧ b.graph.nodes.map (fun _ => Node.bare) = nodes := by
  obtain ⟨c, -, hprepare⟩ := hr.prepared
  obtain ⟨hworkspace, hbuiltin, -⟩ := of_prepare hprepare
  obtain ⟨nodes, hnodes⟩ := Pipeline.exists_nodes hr.sound hr.walkable hr.found hbuiltin
    { strategy := u.configuration.pipeline.strategy }
  refine ⟨nodes, fun h' now hs ht => ?_⟩
  obtain ⟨r, s, hgraph, hbare, hkept, hdrive⟩ := hnodes _ _ (hr.resembles hs ht) rfl
  have hdrive : s.drive = h'.drive := hdrive
  obtain ⟨names, hmetadata⟩ := Pipeline.metadata_graphOf u.pipeline (Path.ofParts true root)
    (u.session { h' with clock := now })
  rw [hgraph] at hmetadata
  obtain ⟨w, hsave, hspared, hdirectory, hdocuments, huntouched⟩ :=
    hr.exists_save hs (p := r.graph) (congrArg (·.id) hmetadata)
  rw [← hdrive] at hsave huntouched
  have hsaved : ((Repository.files u.repository).save r.graph).run.run s.drive =
      (.ok (.files u.repository), ⟨w, []⟩) := run_bind_ok hsave
  have hrun := Pipeline.run_of_saved
    (w := ⟨u.session { h' with clock := now }, .files u.repository⟩) hgraph hsaved
  have hkept' : Kept k u.place? { s with drive := ⟨w, []⟩ } :=
    ⟨rfl, fun dir hdir => (hkept.disk dir hdir).untouched (huntouched dir hdir),
      fun cache hcache => (hkept.cache cache hcache).untouched huntouched⟩
  obtain ⟨hfaultless, hflushed, hdisk⟩ := hr.exists_flushed now (hs.spared.trans hspared) hkept' rfl
  have hmake : ∃ stats, u.make.run.run { h' with clock := now } = (.ok ⟨r.graph, r.report, stats⟩,
      { h' with clock := now, drive := flushed now { s with drive := ⟨w, []⟩ } }) := by
    refine ⟨s.facts.map (·.stats), ?_⟩
    rw [Preparation.make, run_bind_ok (run_get _)]
    simp only [hworkspace, hrun]
    rfl
  obtain ⟨stats, hmake⟩ := hmake
  refine ⟨_, _, (hr.run_build (hs.tick now)).trans hmake, ?_, hbare⟩
  refine ⟨⟨hfaultless, fun p hp => ?_, fun n => ?_, hdisk⟩, hs.home, hs.environment,
    (hs.spared.trans hspared).trans (hflushed.mono (fun _ => .inl) fun _ hq => hq)⟩
  · exact Volume.contentAt?_of_directory (Volume.directory_above hflushed.unlinked.toIsTree
      (hflushed.directory _ hdirectory) hp)
  · rw [hflushed.same _ (.inr (List.prefix_append graphs [n]))]
    exact hdocuments n

/-! ## Builds in turn -/

/-- Builds at some times. -/
def buildAll (o : BuildOptions) (g : GlobalOptions) : List UInt64 → HostM (List BuildSummary)
  | [] => return []
  | now :: later => do
    modify fun h => { h with clock := now }
    return (← build o g) :: (← buildAll o g later)

/-- **Builds that follow one another give the same nodes**, but for the times at which they were made. -/
theorem builds_alike (hr : Ready k o g root graphs files u h) {times : List UInt64}
    (ht : ∀ now ∈ times, u.Timely now) :
    ∃ l h', (buildAll o g times).run.run h = (.ok l, h') ∧ l.length = times.length ∧
      ∀ a ∈ l, ∀ b ∈ l, b.graph.nodes.map (fun _ => Node.bare) =
        a.graph.nodes.map fun _ => Node.bare := by
  obtain ⟨nodes, hbuild⟩ := hr.exists_build
  have hall : ∀ {h'}, Since k root graphs files u h h' → ∃ l h'',
      (buildAll o g times).run.run h' = (.ok l, h'') ∧ l.length = times.length ∧
        ∀ b ∈ l, b.graph.nodes.map (fun _ => Node.bare) = nodes := by
    induction times with
    | nil => exact fun _ => ⟨[], _, rfl, rfl, by simp⟩
    | cons now later ih =>
      intro h' hs
      obtain ⟨hnow, hlater⟩ := List.forall_mem_cons.1 ht
      obtain ⟨b, h₁, hrun, hs₁, hnodes⟩ := hbuild h' now hs hnow
      obtain ⟨l, h₂, hrest, hlength, hl⟩ := ih hlater hs₁
      have hclock : (modify fun h => { h with clock := now } : HostM PUnit).run.run h' =
          (.ok ⟨⟩, { h' with clock := now }) := rfl
      refine ⟨b :: l, h₂, ?_, by rw [List.length_cons, hlength, List.length_cons],
        List.forall_mem_cons.2 ⟨hnodes, hl⟩⟩
      rw [buildAll, run_bind_ok hclock, run_bind_ok hrun, run_bind_ok hrest]
      rfl
  obtain ⟨l, h', hrun, hlength, hl⟩ := hall hr.since
  exact ⟨l, h', hrun, hlength, fun a ha b hb => (hl b hb).trans (hl a ha).symm⟩

/-! ## A workspace with one file -/

section Project

open ConfigurationLoader (localPath tableIn)
open FileTree (projectVolume projectBefore unlinked_project leadsTo_project sightings_project)

/-- A host with the file and no configuration. -/
def projectHost : Host :=
  { drive := ⟨projectVolume projectBefore, []⟩, clock := 0 }

def projectOptions : GlobalOptions :=
  { workspace := some "src" }

/-- The place of the local configuration file. -/
def projectPlaces : List (List String) :=
  [["src", ".codeloom", "config.toml"]]

theorem leadsTo_projectRoot :
    (projectVolume projectBefore).LeadsTo (Path.ofParts true ["src"]) ["src"] :=
  Volume.leadsTo_ofParts (unlinked_project _) rfl (by decide)

theorem walkable_project :
    Walkable ["src"] (personOf projectHost) (projectVolume projectBefore) := by
  refine ⟨unlinked_project _, leadsTo_projectRoot, fun q => Volume.contentAt?_of_none ?_,
    fun path hpath => by cases hpath⟩
  rw [Volume.item?_of_ne_nil _ (by simp), List.lookup_eq_none_iff]
  intro e he
  simp only [projectVolume, List.mem_cons, List.not_mem_nil, or_false] at he
  rcases he with rfl | rfl | rfl
  all_goals
    rw [bne_iff_ne]
    intro heq
    have hlast := congrArg List.getLast? heq
    simp at hlast

/-- The places of what the program writes. -/
theorem straight_project {n : String} (hn : Path.IsPlain n) :
    (projectVolume projectBefore).Straight
      (Path.join (Path.join (Path.ofParts true ["src"]) ".codeloom") n) ["src", ".codeloom", n] :=
  ((Volume.Straight.leads leadsTo_projectRoot).join (by decide)).join hn

theorem item?_project (names : List String) :
    (projectVolume projectBefore).item? (["src", ".codeloom"] ++ names) = none := by
  rw [Volume.item?_of_ne_nil _ (by simp), List.lookup_eq_none_iff]
  intro e he
  simp only [projectVolume, List.mem_cons, List.not_mem_nil, or_false] at he
  rcases he with rfl | rfl | rfl <;> simp

theorem configurationOf_project :
    (configurationOf projectOptions (Path.ofParts true ["src"])).run.run projectHost =
      (.ok {}, projectHost) := by
  have hmissing : tableIn (projectVolume projectBefore)
      (localPath (Path.ofParts true ["src"])) = .ok none := by
    rw [tableIn, if_neg]
    intro hok
    have hitem := (((straight_project (n := "config.toml") (by decide)).isOk_metadata
      (unlinked_project _)).1 hok).2
    cases (item?_project ["config.toml"]).symm ▸ hitem
  rw [run_configurationOf_none rfl rfl]
  exact congrArg (fun r => ((ConfigurationLoader.loadOf (.ok none) r
    (overridesOf projectOptions)).mapError _, projectHost)) hmissing

/-- No file is where the program writes, or on the way. -/
theorem contentAt?_project {n : String} {r : List String} (hr : r <+: ["src", ".codeloom", n]) :
    (projectVolume projectBefore).contentAt? r = none := by
  rw [show ["src", ".codeloom", n] = ["src", ".codeloom"] ++ [n] from rfl,
    List.prefix_concat_iff] at hr
  rcases hr with rfl | hr
  · exact Volume.contentAt?_of_none (item?_project [n])
  rw [show ["src", ".codeloom"] = ["src"] ++ [".codeloom"] from rfl, List.prefix_concat_iff] at hr
  rcases hr with rfl | hr
  · exact Volume.contentAt?_of_none (item?_project [])
  · exact Volume.contentAt?_of_directory
      (Volume.directory_above (unlinked_project _).toIsTree leadsTo_projectRoot.item? hr)

theorem apart_project {n m : String} (hne : n ≠ m) :
    ¬ ["src", ".codeloom", n] <+: ["src", ".codeloom", m] := by
  simp [List.cons_prefix_cons, hne]

theorem clears_project {n : String} (hne : n ≠ "config.toml") :
    (projectVolume projectBefore).Clears (LookedAt ["src"] projectPlaces) ["src", ".codeloom", n] := by
  refine clears_of_data rfl ⟨[n], rfl⟩ fun f hf => ?_
  obtain rfl := List.mem_singleton.1 hf
  exact ⟨apart_project hne.symm, apart_project hne⟩

/-- What has been found out about the file. -/
def projectFindings : Findings FileFacts :=
  FileTree.findings [⟨"a.rs", projectBefore⟩]

theorem sound_projectFindings : projectFindings.Sound := by
  have hfiles : [⟨"a.rs", projectBefore⟩] ⊆ FileTree.projectFiles := by simp [FileTree.projectFiles]
  exact FileTree.sound_findings (FileTree.distinct_project.of_subset hfiles)
    (Nat.lt_of_le_of_lt (FileTree.weight_findings_le hfiles) FileTree.weight_project)

theorem usable_project
    (hplace : u.place? = some (Path.join (Path.join (Path.ofParts true ["src"]) ".codeloom") "cache")) :
    Usable projectFindings ["src", ".codeloom", "graphs"] u projectHost := by
  refine ⟨rfl, fun _ => contentAt?_project, fun n hitem => ?_, fun dir hdir => ?_⟩
  · cases (item?_project ["graphs", n]).symm.trans hitem
  · obtain rfl := Option.some.inj (hplace.symm.trans hdir)
    exact .of_fresh rfl (Cache.Shelf.fresh_of_missing (unlinked_project _)
      (straight_project (by decide)) (by decide) (fun _ => contentAt?_project)
      (item?_project ["cache"])) rfl

theorem exists_ready_project : ∃ u, Ready projectFindings {} projectOptions ["src"]
    ["src", ".codeloom", "graphs"] projectPlaces u projectHost ∧
    u.facts.map (·.memory.ttl) = some (some 3600000) := by
  obtain ⟨u, hprepare, hgraphs, hplace, hsettings, httl⟩ : ∃ u,
      (prepare {} (Path.ofParts true ["src"]) {}).run.run projectHost = (.ok u, projectHost) ∧
      u.repository.directory = Path.join (Path.join (Path.ofParts true ["src"]) ".codeloom") "graphs" ∧
      u.place? = some (Path.join (Path.join (Path.ofParts true ["src"]) ".codeloom") "cache") ∧
      FileTree.readSettings (u.pipeline.settingsOf FileTree.extension) = .ok ({}, []) ∧
      u.facts.map (·.memory.ttl) = some (some 3600000) :=
    ⟨_, rfl, by decide, by decide, rfl, by decide⟩
  have hdash : Path.ofParts true ["src"] ≠ "-" := by decide
  refine ⟨u, ⟨usable_project hplace, walkable_project, leadsTo_project _ (by simp),
    fun path hpath => ?_, ⟨{}, configurationOf_project, hprepare⟩, ?_, ?_, clears_project (by decide),
    fun dir hdir => ?_, sound_projectFindings, fun f hf => ?_⟩, httl⟩
  · obtain rfl := List.mem_singleton.1 hpath
    exact ⟨_, List.mem_singleton_self _, straight_project (by decide)⟩
  · rw [hgraphs]
    exact straight_project (by decide)
  · rw [hgraphs]
    decide
  · obtain rfl := Option.some.inj (hplace.symm.trans hdir)
    exact ⟨_, straight_project (by decide), clears_project (by decide), apart_project (by decide),
      apart_project (by decide)⟩
  · exact FileTree.mem_findings.2
      ⟨f, sightings_project rfl leadsTo_projectRoot hdash hsettings hf, rfl⟩

/-- Two builds of the workspace. -/
theorem builds_alike_project : ∃ a b h',
    (buildAll {} projectOptions [1000, 5000]).run.run projectHost = (.ok [a, b], h') ∧
      b.graph.nodes.map (fun _ => Node.bare) = a.graph.nodes.map fun _ => Node.bare := by
  obtain ⟨u, hready, httl⟩ := exists_ready_project
  have htimely : ∀ now ∈ [1000, 5000], u.Timely now := by
    intro now hnow cache hcache t ht
    rw [hcache] at httl
    obtain rfl : t = 3600000 := Option.some.inj (ht.symm.trans (Option.some.inj httl))
    simp only [List.mem_cons, List.not_mem_nil, or_false] at hnow
    rcases hnow with rfl | rfl <;> decide
  obtain ⟨l, h', hrun, hlength, halike⟩ := builds_alike hready htimely
  obtain ⟨a, b, rfl⟩ := List.length_eq_two.1 hlength
  exact ⟨a, b, h', hrun, halike a (by simp) b (by simp)⟩

end Project

end CodeGraph.CommandLine
