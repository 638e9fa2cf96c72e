import CodeGraph.Proofs.Pipeline.Merge
import CodeGraph.Proofs.Repository.Agreement
import CodeGraph.Proofs.Repository.Confinement

/-!
# The latest graph of a codebase

A service that runs over codebases keeps the graph of every run, and the graph that is found for a
codebase is the one of the last run over it (`run_is_found`). The identifier of a graph is made of its
codebase and the time at which its run started, and the later graph of a codebase is the one with the
later time. Of two runs over one codebase that start within one millisecond only the second graph is
left, which has taken the place of the first one.

* `MemoryRepository.findByCodebase_eq_some_iff`: what is found is a graph that no other one of its
  codebase comes after.
* `Repository.Keeps.of_save`: what either kind of repository keeps after a graph was saved.
* `Serves.shelved`: what holds of the graphs that runs have left, by induction on the runs.
-/

namespace CodeGraph

/-! ## The graph that is found for a codebase -/

namespace MemoryRepository

variable {r : MemoryRepository} {codebase : String} {g x : PropertyGraph}

/-- What is found for a codebase is one of its graphs that none of them comes after. -/
theorem findByCodebase_eq_some_iff (h : r.IsFiled) :
    r.findByCodebase codebase = some g ↔ r.findById g.id = some g ∧ g.metadata.codebase = codebase ∧
      ∀ x, r.findById x.id = some x → x.metadata.codebase = codebase →
        x.metadata.precedes g.metadata = true := by
  have hlisted : ∀ x : PropertyGraph, r.findById x.id = some x → x.metadata.codebase = codebase →
      x.metadata ∈ r.metadata.filter fun m => m.codebase == codebase := by
    intro x hx hcodebase
    have hvalue := List.mem_map_of_mem (f := Prod.snd) (NameMap.mem_entries_of_get? hx)
    exact List.mem_filter.2 ⟨List.mem_map_of_mem hvalue, by simpa using hcodebase⟩
  have hfound : ∀ {m : GraphMetadata}, m ∈ r.metadata.filter (fun m => m.codebase == codebase) →
      ∃ x, r.findById m.id = some x ∧ x.metadata = m ∧ m.codebase = codebase := by
    intro m hm
    obtain ⟨hm, hcodebase⟩ := List.mem_filter.1 hm
    obtain ⟨x, hx, rfl⟩ := h.exists_graph hm
    exact ⟨x, hx, rfl, by simpa using hcodebase⟩
  constructor
  · intro hg
    obtain ⟨m, hm, hget⟩ := Option.bind_eq_some_iff.1 hg
    obtain ⟨hmem, hmost⟩ := GraphMetadata.latest?_eq_some hm
    obtain ⟨y, hy, rfl, hcodebase⟩ := hfound hmem
    obtain rfl := Option.some.inj (hy.symm.trans hget)
    exact ⟨hy, hcodebase, fun x hx hc => hmost _ (hlisted x hx hc)⟩
  · rintro ⟨hg, hcodebase, hmost⟩
    have hmem := hlisted g hg hcodebase
    obtain ⟨m, hm, hm', hlatest⟩ := GraphMetadata.exists_latest? (List.ne_nil_of_mem hmem)
    obtain ⟨y, hy, rfl, hc⟩ := hfound hm'
    have hid : y.id = g.id :=
      GraphMetadata.id_eq_of_precedes (hmost y hy hc) (hlatest _ hmem)
    refine Option.bind_eq_some_iff.2 ⟨y.metadata, hm, ?_⟩
    change r.findById y.id = some g
    rw [hid, hg]

/-- A graph that is saved is found for its codebase unless a graph of another identifier comes after
it. -/
theorem findByCodebase_save_self (h : r.IsFiled)
    (hlast : ∀ x, r.findById x.id = some x → x.metadata.codebase = g.metadata.codebase →
      x.id ≠ g.id → x.metadata.precedes g.metadata = true) :
    (r.save g).findByCodebase g.metadata.codebase = some g := by
  refine (findByCodebase_eq_some_iff (h.save g)).2 ⟨NameMap.get?_insert_self .., rfl, ?_⟩
  intro x hx hcodebase
  change (r.graphs.insert g.id g).get? x.id = some x at hx
  rw [NameMap.get?_insert] at hx
  split at hx
  · obtain rfl := Option.some.inj hx
    exact GraphMetadata.precedes_refl _
  · next hid => exact hlast x hx hcodebase hid

/-- A graph that replaces none but one of its codebase is not found for another codebase, and hides
nothing there. -/
theorem findByCodebase_save_of_ne (h : r.IsFiled) (hne : codebase ≠ g.metadata.codebase)
    (hreplaced : ∀ x, r.findById g.id = some x → x.metadata.codebase = g.metadata.codebase) :
    (r.save g).findByCodebase codebase = r.findByCodebase codebase := by
  have hsame : ∀ x : PropertyGraph, x.metadata.codebase = codebase →
      ((r.save g).findById x.id = some x ↔ r.findById x.id = some x) := by
    intro x hx
    change (r.graphs.insert g.id g).get? x.id = some x ↔ _
    rw [NameMap.get?_insert]
    split
    · next hid =>
      constructor
      · intro hg
        obtain rfl := Option.some.inj hg
        exact absurd hx hne.symm
      · intro hx'
        rw [hid] at hx'
        exact absurd ((hreplaced x hx').symm.trans hx).symm hne
    · rfl
  refine Option.ext fun x => ?_
  rw [findByCodebase_eq_some_iff h, findByCodebase_eq_some_iff (h.save g)]
  constructor
  · rintro ⟨hx, hc, hmost⟩
    exact ⟨(hsame x hc).1 hx, hc, fun y hy hc' => hmost y ((hsame y hc').2 hy) hc'⟩
  · rintro ⟨hx, hc, hmost⟩
    exact ⟨(hsame x hc).2 hx, hc, fun y hy hc' => hmost y ((hsame y hc').1 hy) hc'⟩

end MemoryRepository

/-! ## Repositories of either kind -/

/-- A graph that can be written is one that was written. -/
theorem FileRepository.Keeps.storable_of_save {r : FileRepository} {v : Volume}
    {m : NameMap PropertyGraph} {g : PropertyGraph} {d d' : Drive} (h : r.Keeps v m)
    (hreads : Json.decodeBytes PropertyGraph.read (document g) = .ok g)
    (hsave : (r.save g).run.run d = (.ok (), d')) : r.Storable g := by
  have hdir : r.directory ≠ "" := by
    rcases h with ⟨q, h⟩ | ⟨-, h⟩
    · exact h.leads.ne_empty
    · obtain ⟨q, w, -, hw⟩ := h.made
      exact hw.leads.ne_empty
  obtain ⟨hid, v₁, v₂, -, hwrite, -⟩ := exists_of_save hsave
  obtain ⟨found, hfound⟩ : ∃ found,
      v₁.resolve true (Path.join r.directory (unfinishedName g.id)) = .ok found := by
    rw [Volume.writeFile] at hwrite
    rcases hr : v₁.resolve true (Path.join r.directory (unfinishedName g.id)) with e | found
    · rw [hr] at hwrite
      cases hwrite
    · exact ⟨found, rfl⟩
  obtain ⟨hplain, hlen, -⟩ :=
    Volume.LeadsTo.of_resolve_join hdir (isSegment_unfinishedName hid) hfound
  exact ⟨hid, ⟨hplain.short, hlen⟩, hreads⟩

namespace Repository

variable {R R' : Repository} {v : Volume} {m : NameMap PropertyGraph} {g : PropertyGraph}

/-- The repository keeps nothing but some graphs, each under its identifier. -/
def Keeps (R : Repository) (v : Volume) (m : NameMap PropertyGraph) : Prop :=
  match R with
  | .memory r => r = ⟨m⟩ ∧ r.IsFiled
  | .files r => r.Keeps v m

/-- The repository has no graphs yet; the directory of one of files is empty, or missing and can be
made. -/
def IsNew (R : Repository) (v : Volume) : Prop :=
  match R with
  | .memory r => r = {}
  | .files r => r.Fresh v

/-- A graph is found as it was saved; in files it is read from its document. -/
def GivesBack (R : Repository) (g : PropertyGraph) : Prop :=
  match R with
  | .memory _ => True
  | .files _ => Json.decodeBytes PropertyGraph.read (FileRepository.document g) = .ok g

theorem IsNew.keeps (h : R.IsNew v) : R.Keeps v .empty := by
  rcases R with r | r
  · obtain rfl : r = {} := h
    exact ⟨rfl, MemoryRepository.isFiled_empty⟩
  · exact FileRepository.Fresh.keeps h

theorem Keeps.isFiled (h : R.Keeps v m) : MemoryRepository.IsFiled ⟨m⟩ := by
  rcases R with r | r
  · obtain ⟨rfl, hfiled⟩ := h
    exact hfiled
  · exact FileRepository.Keeps.isFiled h

theorem Keeps.run_findByCodebase (h : R.Keeps v m) (codebase : String) :
    (R.findByCodebase codebase).run.run ⟨v, []⟩ =
      (.ok (MemoryRepository.findByCodebase ⟨m⟩ codebase), ⟨v, []⟩) := by
  rcases R with r | r
  · obtain ⟨rfl, -⟩ := h
    rfl
  · exact FileRepository.Keeps.run_findByCodebase h codebase

/-- A graph that was saved is kept in the place of one of its identifier, next to the others. -/
theorem Keeps.of_save {d' : Drive} (h : R.Keeps v m) (hg : R.GivesBack g)
    (hsave : (R.save g).run.run ⟨v, []⟩ = (.ok R', d')) :
    R'.Keeps d'.volume (m.insert g.id g) ∧ d'.faults = [] := by
  rcases R with r | r
  · obtain ⟨rfl, hfiled⟩ := h
    cases hsave
    exact ⟨⟨rfl, hfiled.save g⟩, rfl⟩
  · obtain ⟨⟨⟩, d₁, hfiles, hrest⟩ := exists_of_run_bind hsave
    cases hrest
    obtain ⟨w, hrun, hw⟩ :=
      FileRepository.Keeps.run_save h (FileRepository.Keeps.storable_of_save h hg hfiles)
    cases hfiles.symm.trans hrun
    exact ⟨hw, rfl⟩

end Repository

/-! ## Runs one after the other -/

namespace Pipeline

variable {p : Pipeline} {root : String} {start w w' : Workshop} {r : Run} {runs : List Run}

/-- A session goes on: the clock is not turned back, nothing goes wrong with files, and graphs that
the repository keeps are left alone. -/
structure GoesOn (R : Repository) (s t : Session) : Prop where
  clock : s.clock ≤ t.clock
  faultless : t.drive.faults = []
  keeps : ∀ m, R.Keeps s.drive.volume m → R.Keeps t.drive.volume m

/-- A run over a codebase that gives a graph, during which the session goes on. -/
structure Gives (p : Pipeline) (root : String) (w : Workshop) (r : Run) (w' : Workshop) : Prop where
  answer : (p.run root).run w = (.ok r, w')
  goesOn : GoesOn w.repository w.session ((p.graphOf root).run w.session).2
  givesBack : w.repository.GivesBack r.graph

/-- Runs over any codebases with any extensions, and what comes between them. -/
inductive Serves (start : Workshop) : List Run → Workshop → Prop
  | nothing : Serves start [] start
  | meanwhile {runs : List Run} {w : Workshop} {s : Session} (before : Serves start runs w)
      (goesOn : GoesOn w.repository w.session s) : Serves start runs { w with session := s }
  | run {runs : List Run} {w w' : Workshop} {p : Pipeline} {root : String} {r : Run}
      (before : Serves start runs w) (gives : p.Gives root w r w') : Serves start (runs ++ [r]) w'

/-- No two graphs of runs have one identifier unless they are of one codebase and of one time, of
which identifiers are made. -/
def IdsApart (runs : List Run) : Prop :=
  ∀ a ∈ runs, ∀ b ∈ runs, a.graph.id = b.graph.id →
    a.graph.metadata.codebase = b.graph.metadata.codebase ∧
      a.graph.metadata.createdAt = b.graph.metadata.createdAt

/-- A run makes a graph, and its answer is then up to the repository. -/
theorem run_of_saved {made : Run} {s : Session} {saved : Except RepositoryError Repository}
    {drive : Drive} (hmade : (p.graphOf root).run w.session = (made, s))
    (hsaved : (w.repository.save made.graph).run.run s.drive = (saved, drive)) :
    (p.run root).run w = match saved with
      | .ok repository => (.ok made, ⟨{ s with drive }, repository⟩)
      | .error e => (.error (.repository e), ⟨{ s with drive }, w.repository⟩) := by
  simp only [run, StateT.run_bind, StateT.run_modifyGet, StateT.run_get, Workshop.onFiles,
    pure_bind, hmade, hsaved]
  cases saved <;> rfl

/-- What a run that gives a graph consists of. -/
theorem exists_of_run (h : (p.run root).run w = (.ok r, w')) :
    ((p.graphOf root).run w.session).1 = r ∧
      (w.repository.save r.graph).run.run ((p.graphOf root).run w.session).2.drive =
        (.ok w'.repository, w'.session.drive) ∧
      w'.session.clock = ((p.graphOf root).run w.session).2.clock := by
  obtain rfl := eq_of_run_eq_ok h
  rcases hsaved : (w.repository.save ((p.graphOf root).run w.session).1.graph).run.run
    ((p.graphOf root).run w.session).2.drive with ⟨e | repository, drive⟩
  all_goals rw [run_of_saved rfl hsaved] at h
  · cases h
  · obtain rfl := (Prod.mk.inj h).2
    exact ⟨rfl, rfl, rfl⟩

/-- The graph of a run is named after the codebase and the time at which the run starts. -/
theorem metadata_graphOf (p : Pipeline) (root : String) (s : Session) :
    ∃ names, ((p.graphOf root).run s).1.graph.metadata =
      { GraphMetadata.new root s.clock with extensionNames := names } := by
  obtain ⟨visits, edges, s', hvisits, s₁, hparses, hlinks⟩ := exists_course p root s
  rw [graphOf_of_calls hvisits hparses hlinks]
  exact ⟨_, metadata_gathered ..⟩

/-- What runs have left in a repository: graphs of theirs, none of them from the future. -/
structure Shelved (runs : List Run) (w : Workshop) (m : NameMap PropertyGraph) : Prop where
  keeps : w.repository.Keeps w.session.drive.volume m
  faultless : w.session.drive.faults = []
  ofRun : ∀ id g, m.get? id = some g → ∃ r ∈ runs, r.graph = g
  past : ∀ r ∈ runs, r.graph.metadata.createdAt ≤ w.session.clock
  named : ∀ r ∈ runs, r.graph.id =
    GraphMetadata.identifier r.graph.metadata.codebase r.graph.metadata.createdAt

namespace Shelved

variable {m : NameMap PropertyGraph}

theorem run_findByCodebase (h : Shelved runs w m) (codebase : String) :
    (w.repository.findByCodebase codebase).run.run w.session.drive =
      (.ok (MemoryRepository.findByCodebase ⟨m⟩ codebase), w.session.drive) := by
  have hdrive : w.session.drive = ⟨w.session.drive.volume, []⟩ := by
    rw [← h.faultless]
  rw [hdrive]
  exact h.keeps.run_findByCodebase codebase

theorem goesOn {s : Session} (h : Shelved runs w m) (hs : GoesOn w.repository w.session s) :
    Shelved runs { w with session := s } m :=
  ⟨hs.keeps m h.keeps, hs.faultless, h.ofRun,
    fun r hr => UInt64.le_trans (h.past r hr) hs.clock, h.named⟩

theorem gives (h : Shelved runs w m) (hr : p.Gives root w r w') :
    Shelved (runs ++ [r]) w' (m.insert r.graph.id r.graph) := by
  obtain ⟨hgraph, hsave, hclock⟩ := exists_of_run hr.answer
  have hafter := h.goesOn hr.goesOn
  obtain ⟨names, hmetadata⟩ := metadata_graphOf p root w.session
  rw [hgraph] at hmetadata
  have hdrive : ((p.graphOf root).run w.session).2.drive =
      ⟨((p.graphOf root).run w.session).2.drive.volume, []⟩ := by
    rw [← hafter.faultless]
  rw [hdrive] at hsave
  obtain ⟨hkeeps, hfaultless⟩ := hafter.keeps.of_save hr.givesBack hsave
  refine ⟨hkeeps, hfaultless, fun id g hg => ?_, fun x hx => ?_, fun x hx => ?_⟩
  · rw [NameMap.get?_insert] at hg
    split at hg
    · exact ⟨r, by simp, Option.some.inj hg⟩
    · obtain ⟨x, hx, hxg⟩ := h.ofRun id g hg
      exact ⟨x, List.mem_append_left _ hx, hxg⟩
  · rw [hclock]
    rcases List.mem_append.1 hx with hx | hx
    · exact hafter.past x hx
    · rw [List.mem_singleton.1 hx, hmetadata]
      exact hr.goesOn.clock
  · rcases List.mem_append.1 hx with hx | hx
    · exact h.named x hx
    · rw [List.mem_singleton.1 hx, PropertyGraph.id, hmetadata]
      rfl

end Shelved

/-- However many runs a service has made, what they have left are graphs of theirs. -/
theorem Serves.shelved (hnew : start.repository.IsNew start.session.drive.volume)
    (hfaultless : start.session.drive.faults = []) (h : Serves start runs w) :
    ∃ m, Shelved runs w m := by
  induction h with
  | nothing => exact ⟨.empty, hnew.keeps, hfaultless, by simp, by simp, by simp⟩
  | meanwhile _ goesOn ih =>
    obtain ⟨m, hm⟩ := ih
    exact ⟨m, hm.goesOn goesOn⟩
  | run _ gives ih =>
    obtain ⟨m, hm⟩ := ih
    exact ⟨_, hm.gives gives⟩

/-! ## A service that writes files -/

/-- A run that leaves the session as it is, on files that can keep its graph. -/
theorem exists_gives {f : FileRepository} {s : Session} {m : NameMap PropertyGraph}
    (hkeeps : f.Keeps s.drive.volume m) (hfaultless : s.drive.faults = [])
    (hrun : (p.graphOf root).run s = (r, s)) (hstorable : f.Storable r.graph) :
    ∃ v, p.Gives root ⟨s, .files f⟩ r ⟨{ s with drive := ⟨v, []⟩ }, .files f⟩ ∧
      f.Keeps v (m.insert r.graph.id r.graph) := by
  obtain ⟨v, hsave, hv⟩ := hkeeps.run_save hstorable
  have hdrive : s.drive = ⟨s.drive.volume, []⟩ := by rw [← hfaultless]
  have hfiles : ((Repository.files f).save r.graph).run.run s.drive = (.ok (.files f), ⟨v, []⟩) := by
    rw [hdrive]
    exact run_bind_ok hsave
  refine ⟨v, ⟨?_, ?_, hstorable.reads⟩, hv⟩
  · exact @run_of_saved p root ⟨s, .files f⟩ r s _ _ hrun hfiles
  · rw [hrun]
    exact ⟨UInt64.le_refl _, hfaultless, fun _ h => h⟩

/-- A run with one extension, which gives a node with a note. -/
def noting (name : String) : Pipeline where
  extensions := [{
    info := ⟨name, "1.0.0", "docs"⟩
    parse := fun _ => pure { nodes := [FileRepository.notedNode "owner"] } }]

/-- The graph of a note on a codebase at a time. -/
def noteOn (name root : String) (t : UInt64) : PropertyGraph :=
  .ofDocument ⟨{ GraphMetadata.new root t with extensionNames := [name] },
    [{ FileRepository.notedNode "owner" with provenance := some ⟨"docs", name, "1.0.0", t⟩ }], []⟩

theorem toJson_noteOn (name root : String) (t : UInt64) : (noteOn name root t).toJson = .object [
    ("metadata", .object [("id", .string (GraphMetadata.identifier root t)),
      ("codebase_id", .string root), ("language", .string "multi"), ("created_at", .ofWord t),
      ("extensions", .array [.string name])]),
    ("nodes", .array [.object [("id", .string "n"), ("type", .string "file"), ("name", .string "N"),
      ("metadata", .object [("language", .string "rust"), ("owner", .string "note")]),
      ("source", .object [("domain", .string "docs"), ("extension", .string name),
        ("version", .string "1.0.0"), ("timestamp", .ofWord t)])]]),
    ("edges", .array [])] :=
  rfl

theorem reads_noteOn (name root : String) (t : UInt64) :
    Json.decodeBytes PropertyGraph.read (FileRepository.document (noteOn name root t)) =
      .ok (noteOn name root t) := by
  have hlegible : (noteOn name root t).toJson.Legible := by
    rw [toJson_noteOn]
    simp [Json.Legible, Json.LegibleItems, Json.LegibleMembers, Json.LegibleNumber, Json.ofWord]
  have hdepth : (noteOn name root t).toJson.depth < 128 := by
    rw [toJson_noteOn]
    simp [Json.depth, Json.depthItems, Json.depthMembers, Json.ofWord]
  have hcanonical : ∀ v, (noteOn name root t).Records v → v.canonical = v := by
    rintro v (⟨n, hn, k, hk⟩ | ⟨e, he, -⟩)
    · obtain rfl := List.mem_singleton.1 hn
      obtain ⟨-, rfl⟩ := Prod.mk.inj (List.mem_singleton.1 hk)
      rfl
    · exact absurd he List.not_mem_nil
  have hexpressible : (noteOn name root t).Expressible := by
    refine ⟨fun n hn x hx => ?_, fun e he => absurd he List.not_mem_nil,
      fun e he => absurd he List.not_mem_nil⟩
    obtain rfl := List.mem_singleton.1 hn
    obtain rfl := List.mem_singleton.1 hx
    decide
  rw [FileRepository.document, Json.decodeBytes_pretty _ _ hlegible]
  exact (PropertyGraph.read_toJson_iff hlegible hdepth hcanonical).2 hexpressible

theorem storable_noteOn (name root : String) (t : UInt64) :
    FileRepository.store.Storable (noteOn name root t) := by
  have hname : (FileRepository.unfinishedName (GraphMetadata.identifier root t)).utf8ByteSize = 31 := by
    rw [FileRepository.unfinishedName, String.utf8ByteSize_append, GraphMetadata.utf8ByteSize_identifier]
    rfl
  refine ⟨GraphMetadata.isValidId_identifier root t, ⟨?_, ?_⟩, reads_noteOn name root t⟩
  · exact Nat.le_trans (Nat.le_of_eq hname) (by decide)
  · have hunslashed :=
      (FileRepository.isSegment_unfinishedName (GraphMetadata.isValidId_identifier root t)).unslashed
    change (Path.join _ (FileRepository.unfinishedName (GraphMetadata.identifier root t))).utf8ByteSize
      ≤ Volume.longestPath
    rw [Path.join_unslashed (by decide) hunslashed, if_neg (by decide), String.utf8ByteSize_append,
      hname]
    decide

/-- The start of a service that writes files. -/
def storeWorkshop (v : Volume) : Workshop :=
  ⟨{ ids := ⟨.sequential, 0, 0⟩, clock := 7, drive := ⟨v, []⟩ }, .files FileRepository.store⟩

/-- **The latest graph is found.** A service starts with a repository without graphs, in memory or in
files, and makes any runs over any codebases, while the clock does not go back. After each run the
graph that is found for its codebase is the one that the run gave, and for every other codebase the
answer is the one from before the run. -/
theorem run_is_found (hnew : start.repository.IsNew start.session.drive.volume)
    (hfaultless : start.session.drive.faults = []) (hbefore : Serves start runs w)
    (hrun : p.Gives root w r w') (hids : IdsApart (runs ++ [r])) :
    (w'.repository.findByCodebase root).run.run w'.session.drive =
        (.ok (some r.graph), w'.session.drive) ∧
      ∀ other, other ≠ root → ∃ found,
        (w.repository.findByCodebase other).run.run w.session.drive = (.ok found, w.session.drive) ∧
        (w'.repository.findByCodebase other).run.run w'.session.drive =
          (.ok found, w'.session.drive) := by
  obtain ⟨m, hm⟩ := hbefore.shelved hnew hfaultless
  have hm' := hm.gives hrun
  have hfiled := hm.keeps.isFiled
  obtain ⟨hgraph, -, -⟩ := exists_of_run hrun.answer
  obtain ⟨names, hmetadata⟩ := metadata_graphOf p root w.session
  rw [hgraph] at hmetadata
  have hcodebase : r.graph.metadata.codebase = root := congrArg (·.codebase) hmetadata
  have htime : r.graph.metadata.createdAt = w.session.clock := congrArg (·.createdAt) hmetadata
  constructor
  · rw [hm'.run_findByCodebase]
    refine congrArg (fun g => (Except.ok g, w'.session.drive)) ?_
    refine (congrArg _ hcodebase.symm).trans
      (MemoryRepository.findByCodebase_save_self hfiled fun x hx hroot hid => ?_)
    obtain ⟨a, ha, rfl⟩ := hm.ofRun _ _ hx
    -- Graphs of one codebase and one time have one identifier, so this one is older.
    have hle := hm.past a ha
    have hne : a.graph.metadata.createdAt ≠ w.session.clock := by
      intro heq
      refine hid ?_
      rw [hm.named a ha, hm'.named r (by simp), hroot, heq, htime]
    exact GraphMetadata.precedes_iff.2
      (.inl (htime ▸ UInt64.lt_of_le_of_ne hle hne))
  · intro other hother
    refine ⟨_, hm.run_findByCodebase other, ?_⟩
    rw [hm'.run_findByCodebase]
    refine congrArg (fun g => (Except.ok g, w'.session.drive)) ?_
    refine MemoryRepository.findByCodebase_save_of_ne hfiled (hcodebase ▸ hother) fun x hx => ?_
    obtain ⟨a, ha, rfl⟩ := hm.ofRun _ _ hx
    exact (hids a (by simp [ha]) r (by simp) (hfiled _ _ hx)).1

/-- Within one millisecond `/a` is run over, `/b` is, and `/a` is again: the second graph of `/a` is
found, and the one of `/b` as before. -/
theorem run_is_found_store : ∃ (runs : List Run) (w w' : Workshop) (r : Run),
    Serves (storeWorkshop FileRepository.storeVolume) runs w ∧
      runs.map (·.graph) = [noteOn "drafts" "/a" 7, noteOn "drafts" "/b" 7] ∧
      (noting "notes").Gives "/a" w r w' ∧ r.graph = noteOn "notes" "/a" 7 ∧
      (w'.repository.findByCodebase "/a").run.run w'.session.drive =
        (.ok (some r.graph), w'.session.drive) ∧
      ∃ found,
        (w.repository.findByCodebase "/b").run.run w.session.drive = (.ok found, w.session.drive) ∧
        (w'.repository.findByCodebase "/b").run.run w'.session.drive =
          (.ok found, w'.session.drive) := by
  have hdraft : ∀ root v, ∃ report, ((noting "drafts").graphOf root).run (storeWorkshop v).session =
      (⟨noteOn "drafts" root 7, report⟩, (storeWorkshop v).session) := fun root v => ⟨_, rfl⟩
  have hnote : ∀ root v, ∃ report, ((noting "notes").graphOf root).run (storeWorkshop v).session =
      (⟨noteOn "notes" root 7, report⟩, (storeWorkshop v).session) := fun root v => ⟨_, rfl⟩
  obtain ⟨a, ha⟩ := hdraft "/a" FileRepository.storeVolume
  obtain ⟨v₁, hfirst, hv₁⟩ := exists_gives FileRepository.fresh_store.keeps rfl ha
    (storable_noteOn "drafts" _ _)
  obtain ⟨b, hb⟩ := hdraft "/b" v₁
  obtain ⟨v₂, hsecond, hv₂⟩ := exists_gives hv₁ rfl hb (storable_noteOn "drafts" _ _)
  obtain ⟨c, hc⟩ := hnote "/a" v₂
  obtain ⟨v₃, hthird, -⟩ := exists_gives hv₂ rfl hc (storable_noteOn "notes" _ _)
  have hserves : Serves (storeWorkshop FileRepository.storeVolume)
      ([] ++ [⟨noteOn "drafts" "/a" 7, a⟩] ++ [⟨noteOn "drafts" "/b" 7, b⟩])
      (storeWorkshop v₂) := .run (.run .nothing hfirst) hsecond
  have hne : GraphMetadata.identifier "/a" 7 ≠ GraphMetadata.identifier "/b" 7 := by
    decide +kernel
  have hids : IdsApart ([] ++ [⟨noteOn "drafts" "/a" 7, a⟩] ++ [⟨noteOn "drafts" "/b" 7, b⟩] ++
      [⟨noteOn "notes" "/a" 7, c⟩]) := by
    have hall : ∀ x ∈ ([⟨noteOn "drafts" "/a" 7, a⟩, ⟨noteOn "drafts" "/b" 7, b⟩,
        ⟨noteOn "notes" "/a" 7, c⟩] : List Run), ∃ name root,
          (root = "/a" ∨ root = "/b") ∧ x.graph = noteOn name root 7 := by
      simp only [List.forall_mem_cons]
      exact ⟨⟨_, _, .inl rfl, rfl⟩, ⟨_, _, .inr rfl, rfl⟩, ⟨_, _, .inl rfl, rfl⟩, by simp⟩
    intro x hx y hy hid
    obtain ⟨_, _, hroot, hx⟩ := hall x hx
    obtain ⟨_, _, hroot', hy⟩ := hall y hy
    rw [hx, hy] at hid ⊢
    rcases hroot with rfl | rfl
    all_goals rcases hroot' with rfl | rfl
    · exact ⟨rfl, rfl⟩
    · exact absurd hid hne
    · exact absurd hid hne.symm
    · exact ⟨rfl, rfl⟩
  have hnew : (storeWorkshop FileRepository.storeVolume).repository.IsNew FileRepository.storeVolume :=
    FileRepository.fresh_store
  obtain ⟨hself, hothers⟩ := run_is_found hnew rfl hserves hthird hids
  exact ⟨_, _, _, _, hserves, rfl, hthird, rfl, hself, hothers "/b" (by decide)⟩

end Pipeline

end CodeGraph
