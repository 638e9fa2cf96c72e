import CodeGraph.CommandLine.Program
import CodeGraph.Proofs.Configuration.Loading
import CodeGraph.Proofs.Volume.Spared

/-!
# The parts of a build

A build reads the configuration of a workspace, prepares what it works with, and makes the graph
(`buildGraph_eq`). The preparation is told by the configuration (`detached_prepare`), and the
configuration by its files (`configurationOf_again`).
-/

namespace CodeGraph.CommandLine

/-! ## Parts -/

/-- What a graph is made with. -/
structure Preparation where
  workspace : String
  configuration : Configuration
  pipeline : Pipeline
  facts : Option (Cache.LayeredCache FileFacts)

/-- Prepares a build over a configuration. -/
def prepare (o : BuildOptions) (workspace : String) (c : Configuration) : HostM Preparation := do
  let c ← buildConfiguration o c
  let opened : Except Cache.CacheError (Option (Cache.LayeredCache FileFacts)) :=
    if o.noCache then .ok none
    else (Cache.LayeredCache.new (cacheSettings c workspace) true).map some
  let facts ← HostM.orFail (some "Failed to open result cache") Cache.CacheError.reasons opened
  let p ← pipelineOf c
  return ⟨workspace, c, p, facts⟩

namespace Preparation

/-- The person for whom a host works. -/
def personOf (h : Host) : Ignore.Person :=
  ⟨h.home, h.environment.get? configHomeVariable⟩

/-- The session in which a graph is made. -/
def session (u : Preparation) (h : Host) : Session :=
  { ids := { strategy := u.configuration.pipeline.strategy }, clock := h.clock, drive := h.drive
    facts := u.facts, person := personOf h }

def repository (u : Preparation) : FileRepository :=
  ⟨u.configuration.graphDirectory u.workspace⟩

/-- The drive once waiting writes of the cache of a session have been carried out. -/
def flushed (now : UInt64) (s : Session) : Drive :=
  match s.facts with
  | none => s.drive
  | some cache => ((Cache.LayeredCache.flush now).run.run ⟨cache, s.drive⟩).2.drive

/-- Makes the graph and stores it. -/
def make (u : Preparation) : HostM BuildSummary := do
  let h ← get
  let ran := (u.pipeline.run u.workspace).run ⟨u.session h, .files u.repository⟩
  set { h with drive := flushed h.clock ran.2.session }
  let run ← HostM.orFail (some "Failed to build graph") PipelineError.reasons ran.1
  return ⟨run.graph, run.report, ran.2.session.facts.map (·.stats)⟩

end Preparation

/-- A build up to what is printed. -/
def build (o : BuildOptions) (g : GlobalOptions) : HostM BuildSummary := do
  let workspace ← workspaceOf g
  let u ← prepare o workspace (← configurationOf g workspace)
  u.make

theorem buildGraph_eq (o : BuildOptions) (g : GlobalOptions) :
    buildGraph o g = do
      let b ← build o g
      return if o.json then jsonLines b.toJson else b.text := by
  simp only [buildGraph, build, prepare, Preparation.make, bind_assoc, pure_bind]
  rfl

/-! ## Preparing -/

/-- The host has no part in a program. -/
def Detached {α : Type} (m : HostM α) : Prop :=
  ∃ r, ∀ h, m.run.run h = (r, h)

namespace Detached

variable {α β : Type}

theorem pure (a : α) : Detached (pure a : HostM α) :=
  ⟨.ok a, fun _ => rfl⟩

theorem bind {m : HostM α} {f : α → HostM β} (hm : Detached m) (hf : ∀ a, Detached (f a)) :
    Detached (m >>= f) := by
  obtain ⟨e | a, hm⟩ := hm
  · exact ⟨.error e, fun h => run_bind_error (hm h)⟩
  · obtain ⟨r, hr⟩ := hf a
    exact ⟨r, fun h => (run_bind_ok (hm h)).trans (hr h)⟩

theorem orFail {ε : Type} (attempt : Option String) (reasons : ε → List String)
    (x : Except ε α) : Detached (HostM.orFail attempt reasons x) := by
  rcases x with e | a
  · exact ⟨_, fun _ => rfl⟩
  · exact .pure a

end Detached

/-- A preparation is told by the configuration. -/
theorem detached_prepare (o : BuildOptions) (workspace : String) (c : Configuration) :
    Detached (prepare o workspace c) := by
  have hconfiguration : Detached (buildConfiguration o c) := by
    unfold buildConfiguration
    rcases o.extensionNames with _ | names
    · exact .pure _
    · exact (Detached.orFail ..).bind fun _ => .pure _
  refine hconfiguration.bind fun c => (Detached.orFail ..).bind fun facts => .bind ?_ fun p => .pure _
  exact (Detached.orFail ..).bind fun _ => .pure _

/-- What a program that the host has no part in gives it gives on every other host. -/
theorem Detached.eq_of_run {α : Type} {m : HostM α} (hm : Detached m) {h h' : Host} {a : α}
    {after : Host} (hrun : m.run.run h = (.ok a, after)) : after = h ∧ m.run.run h' = (.ok a, h') := by
  obtain ⟨r, hr⟩ := hm
  cases (hr h).symm.trans hrun
  exact ⟨rfl, hr h'⟩

theorem extensions_withSettings (names : List String) (f : String → Json) (p : Pipeline) :
    (names.foldl (fun p n => p.withSettings n (f n)) p).extensions = p.extensions := by
  induction names generalizing p with
  | nil => rfl
  | cons n names ih => exact ih (p.withSettings n (f n))

theorem mem_builtin_of_ofNames {names : List String} {l : List Extension}
    (h : Extension.ofNames names = .ok l) : ∀ e ∈ l, e ∈ Extension.builtin := by
  induction names generalizing l with
  | nil =>
    cases h
    simp
  | cons n names ih =>
    rw [Extension.ofNames, List.mapM_cons, ← Extension.ofNames] at h
    rcases hfound : Extension.ofName? n with _ | e
    · rw [hfound] at h
      cases h
    rcases hrest : Extension.ofNames names with m | rest
    · rw [hfound, hrest] at h
      cases h
    · rw [hfound, hrest] at h
      cases h
      exact List.forall_mem_cons.2 ⟨List.mem_of_find?_eq_some hfound, ih hrest⟩

/-- What a preparation consists of. -/
theorem of_prepare {o : BuildOptions} {workspace : String} {c : Configuration} {u : Preparation}
    {h h' : Host} (hrun : (prepare o workspace c).run.run h = (.ok u, h')) :
    u.workspace = workspace ∧ (∀ e ∈ u.pipeline.extensions, e ∈ Extension.builtin) ∧
      ∀ cache, u.facts = some cache →
        Cache.LayeredCache.new (cacheSettings u.configuration workspace) true = .ok cache := by
  obtain ⟨c, h₁, -, hrun⟩ := exists_of_run_bind hrun
  obtain ⟨facts, h₂, hfacts, hrun⟩ := exists_of_run_bind hrun
  obtain ⟨p, h₃, hpipeline, hrun⟩ := exists_of_run_bind hrun
  cases hrun
  refine ⟨rfl, ?_, ?_⟩
  · obtain ⟨l, h₄, hnames, hpipeline⟩ := exists_of_run_bind hpipeline
    cases hpipeline
    rw [extensions_withSettings]
    rcases hl : Extension.ofNames c.pipeline.extensionNames with n | l'
    · rw [hl] at hnames
      cases hnames
    · rw [hl] at hnames
      cases hnames
      exact mem_builtin_of_ofNames hl
  · intro cache hcache
    simp only at hcache
    subst hcache
    split at hfacts
    · cases hfacts
    · rcases hnew : Cache.LayeredCache.new (cacheSettings c workspace) true with e | cache'
      · rw [hnew] at hfacts
        cases hfacts
      · rw [hnew] at hfacts
        cases hfacts
        rfl

/-! ## The workspace -/

variable {g : GlobalOptions} {root : List String} {h h' : Host} {v w : Volume} {c : Configuration}

/-- A command works at a directory: the one that it is given, or else the current one. -/
def WorksAt (g : GlobalOptions) (v : Volume) (root : List String) : Prop :=
  match g.workspace with
  | none => v.current = root
  | some path => v.LeadsTo path root

theorem WorksAt.spared {S T : List String → Prop} (hroot : WorksAt g v root) (hv : v.Unlinked)
    (hw : Volume.LeftAlone S T v w) : WorksAt g w root := by
  rw [WorksAt] at hroot ⊢
  split
  · next hnone =>
    rw [hnone] at hroot
    exact hw.current.trans hroot
  · next path hsome =>
    rw [hsome] at hroot
    exact hw.leadsTo hv hroot

theorem run_workspaceOf (hroot : WorksAt g h.drive.volume root) :
    (workspaceOf g).run.run h = (.ok (Path.ofParts true root), h) := by
  rw [workspaceOf, run_bind_ok (run_get h)]
  cases hworkspace : g.workspace with
  | none =>
    have hcurrent : h.drive.volume.current = root := by rwa [WorksAt, hworkspace] at hroot
    rw [← hcurrent]
    rfl
  | some path =>
    have hresolve : h.drive.volume.resolve true path = .ok (root, some .directory) := by
      rwa [WorksAt, hworkspace] at hroot
    have hfind : h.drive.volume.find true path = .ok (root, .directory) := by
      rw [Volume.find, hresolve]
      rfl
    have hdirectory : h.drive.volume.isDirectory path = true := by
      rw [Volume.isDirectory, Volume.metadata, hfind]
      rfl
    have hcanonical : h.drive.volume.canonical path = .ok (Path.ofParts true root) := by
      rw [Volume.canonical, hfind]
      rfl
    simp only [hdirectory, hcanonical]
    rfl

/-! ## The configuration -/

open ConfigurationLoader (directoryName fileName localPath tableIn tableOf)

/-- The files that the configuration of a workspace is read from. -/
def configurationFiles (g : GlobalOptions) (home : Option String) (workspace : String) :
    List String :=
  match g.config with
  | some path => [path]
  | none => (home.map fun d => Path.join (Path.join d directoryName) fileName).toList ++
      [localPath workspace]

/-- A configuration file is there as before, and if so it is read as before. -/
def ReadAgain (v w : Volume) (path : String) : Prop :=
  (w.metadata path).isOk = (v.metadata path).isOk ∧
    ((v.metadata path).isOk = true → w.readText path = v.readText path)

theorem ReadAgain.tableIn_eq {path : String} (hpath : ReadAgain v w path) :
    tableIn w path = tableIn v path := by
  rw [tableIn, tableIn, hpath.1]
  split
  · next hok => rw [tableOf, tableOf, hpath.2 hok]
  · rfl

/-- A file that has been read is there. -/
theorem isOk_metadata_of_tableOf {path : String} {t : Toml.Table} (ht : tableOf v path = .ok t) :
    (v.metadata path).isOk = true := by
  rw [tableOf, Volume.readText, Volume.readFile] at ht
  rw [Volume.metadata]
  rcases hfind : v.find true path with e | found
  · rw [hfind] at ht
    cases ht
  · rfl

/-- The loader of configurations of a person. -/
def loaderOf (home : Option String) : ConfigurationLoader :=
  { directory := home.map fun d => Path.join d directoryName }

/-- What an operation of a loader gives, and the reasons of its failure. -/
theorem run_onLoader {α : Type} {attempt : String} {op : LoaderM α}
    {r : Except ConfigurationError α} {l : ConfigurationLoader}
    (hrun : op.run.run ⟨loaderOf h.home, h.drive⟩ = (r, ⟨l, h.drive⟩)) :
    (HostM.onLoader attempt op).run.run h =
      (r.mapError fun e => .because (attempt :: e.reasons), h) := by
  rw [loaderOf] at hrun
  rw [HostM.onLoader, run_bind_ok (run_get h)]
  simp only [hrun]
  rcases r with e | a <;> rfl

/-- Without a file of its own the configuration is that of the person and of the workspace. -/
theorem run_configurationOf_none {workspace : String} (hconfig : g.config = none)
    (hfaults : h.drive.faults = []) :
    (configurationOf g workspace).run.run h =
      ((ConfigurationLoader.loadOf ((loaderOf h.home).known h.drive.volume)
        (tableIn h.drive.volume (localPath workspace)) (overridesOf g)).mapError
          fun e => .because ("Failed to load configuration" :: e.reasons), h) := by
  obtain ⟨⟨v, faults⟩, clock, home, environment⟩ := h
  obtain rfl : faults = [] := hfaults
  simp only [configurationOf, hconfig]
  exact run_onLoader (ConfigurationLoader.run_load (loaderOf home) v workspace (overridesOf g))

theorem run_configurationOf_some {workspace path : String} (hconfig : g.config = some path)
    (hfaults : h.drive.faults = []) :
    (configurationOf g workspace).run.run h =
      ((tableOf h.drive.volume path >>= fun t =>
        ConfigurationLoader.describe t (overridesOf g)).mapError
          fun e => .because (("Failed to load config file " ++ path) :: e.reasons), h) := by
  obtain ⟨⟨v, faults⟩, clock, home, environment⟩ := h
  obtain rfl : faults = [] := hfaults
  simp only [configurationOf, hconfig]
  exact run_onLoader (ConfigurationLoader.run_loadFile (loaderOf home) v path (overridesOf g))

/-- A configuration is told by its files. -/
theorem configurationOf_again {workspace : String} (hfaults : h.drive.faults = [])
    (hfaults' : h'.drive.faults = []) (hhome : h'.home = h.home)
    (hagain : ∀ path ∈ configurationFiles g h.home workspace,
      ReadAgain h.drive.volume h'.drive.volume path)
    (hread : (configurationOf g workspace).run.run h = (.ok c, h)) :
    (configurationOf g workspace).run.run h' = (.ok c, h') := by
  rcases hconfig : g.config with _ | path
  · rw [run_configurationOf_none hconfig hfaults] at hread
    rw [run_configurationOf_none hconfig hfaults', hhome]
    simp only [configurationFiles, hconfig] at hagain
    have habove : (loaderOf h.home).known h'.drive.volume =
        (loaderOf h.home).known h.drive.volume := by
      rcases hdirectory : h.home with _ | home
      · rfl
      · exact (hagain _ (by simp [hdirectory])).tableIn_eq
    have hhere : tableIn h'.drive.volume (localPath workspace) =
        tableIn h.drive.volume (localPath workspace) := (hagain _ (by simp)).tableIn_eq
    rw [habove, hhere, (Prod.mk.inj hread).1]
  · rw [run_configurationOf_some hconfig hfaults] at hread
    rw [run_configurationOf_some hconfig hfaults']
    simp only [configurationFiles, hconfig] at hagain
    have hsame : tableOf h'.drive.volume path = tableOf h.drive.volume path := by
      rcases ht : tableOf h.drive.volume path with e | t
      · rw [ht] at hread
        cases hread
      · rw [← ht, tableOf, tableOf,
          (hagain path (List.mem_singleton_self path)).2 (isOk_metadata_of_tableOf ht)]
    rw [hsame, (Prod.mk.inj hread).1]

end CodeGraph.CommandLine
