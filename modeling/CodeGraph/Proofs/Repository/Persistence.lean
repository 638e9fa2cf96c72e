import CodeGraph.Proofs.Graph.Rereading
import CodeGraph.Proofs.Volume.Programs
import CodeGraph.Proofs.Volume.Publishing
import CodeGraph.Repository.Files

/-!
# Graphs that are saved and found again

A graph that a repository of files saves is found again as it was exactly if its document tells it:
no member of the metadata of a node or an edge has the name of a typed field, and every weight is
finite (`FileRepository.findById_save_iff`). A document in which two members have one name, or a weight
is null, is written all the same and cannot be read, or not as the graph that was saved.
-/

namespace CodeGraph

open Json
open Volume (IsSegment)
open CodeGraph.Path (IsPlain)

/-! ## Graphs that their documents tell -/

/-- No member of the metadata has the name of a typed field, and every weight is finite. -/
structure PropertyGraph.Expressible (g : PropertyGraph) : Prop where
  nodes : ∀ n ∈ g.nodes.values, ∀ x ∈ n.metadata.extra.entries,
    x.1 ∉ ["file_path", "start_line", "end_line", "size", "language", "is_exported"]
  weights : ∀ e ∈ g.edges.toList, e.metadata.weight.isFinite = true
  edges : ∀ e ∈ g.edges.toList, ∀ x ∈ e.metadata.extra.entries, x.1 ∉ ["weight", "line"]

/-- A value that an extension records about a node or an edge. -/
def PropertyGraph.Records (g : PropertyGraph) (v : Json) : Prop :=
  (∃ n ∈ g.nodes.values, ∃ k, (k, v) ∈ n.metadata.extra.entries) ∨
    ∃ e ∈ g.edges.toList, ∃ k, (k, v) ∈ e.metadata.extra.entries

namespace PropertyGraph

variable {g : PropertyGraph} {v : Json}

/-- What is recorded stands in the document under four arrays and objects. -/
theorem Records.nested (h : g.Records v) : Nested 4 v g.toJson := by
  rcases h with ⟨n, hn, k, hk⟩ | ⟨e, he, k, hk⟩
  · have hmetadata : Nested 1 v n.metadata.toJson :=
      .member (List.mem_append_right _ hk) (.self v)
    have hnode : Nested 2 v n.toJson :=
      @Nested.member 1 v n.metadata.toJson "metadata" _ (by simp) hmetadata
    have hnodes : Nested 3 v (.array (g.nodes.values.map Node.toJson)) :=
      .item (List.mem_map_of_mem hn) hnode
    exact @Nested.member 3 v _ "nodes" _ (by simp [toDocument]) hnodes
  · have hmetadata : Nested 1 v e.metadata.toJson :=
      .member (List.mem_append_right _ hk) (.self v)
    have hedge : Nested 2 v e.toJson :=
      @Nested.member 1 v e.metadata.toJson "metadata" _ (by simp) hmetadata
    have hedges : Nested 3 v (.array (g.edges.toList.map Edge.toJson)) :=
      .item (List.mem_map_of_mem he) hedge
    exact @Nested.member 3 v _ "edges" _ (by simp [toDocument]) hedges

/-- A graph is read from its document as it is exactly if the document tells it. -/
theorem read_toJson_iff {d : GraphDocument} (hlegible : (ofDocument d).toJson.Legible)
    (hdepth : (ofDocument d).toJson.depth < 128)
    (hcanonical : ∀ v, (ofDocument d).Records v → v.canonical = v) :
    PropertyGraph.read .start (ofDocument d).toJson.toOutline = .ok (ofDocument d) ↔
      (ofDocument d).Expressible := by
  have hfinite := isFinite_of_legible hlegible
  have hself : ∀ v, (ofDocument d).Records v → readJson (.text 124) v.toOutline = .ok v := by
    intro v hv
    have hle := hv.nested.depth_le
    have hdepth : (Origin.text 124).Allows v.depth := show v.depth < 124 by omega
    rw [readJson_toOutline v (hv.nested.isFinite hfinite) hdepth, hcanonical v hv]
  constructor
  · intro h
    obtain ⟨-, -, hdurable⟩ := @PropertyGraph.durable_of_read 123 _ hfinite _ h
    refine ⟨fun n hn x hx => ?_, fun e he => (hdurable.edges e he).weight, fun e he x hx => ?_⟩
    · have hname := (hdurable.nodes n hn x hx).1
      simpa [NodeMetadata.record, Field.defaulted, eq_comm] using hname
    · have hname := ((hdurable.edges e he).extra x hx).1
      simpa [EdgeMetadata.record, Field.defaulted, eq_comm] using hname
  · intro h
    refine PropertyGraph.read_toJson ⟨fun n hn x hx => ⟨?_, ?_⟩,
      fun e he => ⟨h.weights e he, fun x hx => ⟨?_, ?_⟩⟩⟩
    · simpa [NodeMetadata.record, Field.defaulted, eq_comm] using h.nodes n hn x hx
    · exact hself x.2 (.inl ⟨n, hn, x.1, hx⟩)
    · simpa [EdgeMetadata.record, Field.defaulted, eq_comm] using h.edges e he x hx
    · exact hself x.2 (.inr ⟨e, he, x.1, hx⟩)

end PropertyGraph

/-! ## Documents on a volume -/

namespace FileRepository

variable {r : FileRepository} {g : PropertyGraph} {d d' : Drive} {id : String}

/-- The name under which the document of an identifier is written first. -/
def unfinishedName (id : String) : String :=
  id ++ ".json.tmp"

theorem isSegment_append {ending : String} (hid : isValidId id = true)
    (hending : ending.toList.all fun c => c ≠ '/' ∧ c ≠ '\x00') (hlong : 2 < ending.toList.length) :
    IsSegment (id ++ ending) := by
  have hchars : ∀ c ∈ (id ++ ending).toList, c ≠ '/' ∧ c ≠ '\x00' := by
    intro c hc
    rw [String.toList_append] at hc
    rcases List.mem_append.1 hc with hc | hc
    · simp only [isValidId, Bool.and_eq_true, List.all_eq_true] at hid
      have hvalid := hid.1.2 c hc
      refine ⟨?_, ?_⟩
      all_goals
        rintro rfl
        revert hvalid
        decide
    · exact of_decide_eq_true (List.all_eq_true.1 hending c hc)
  have hne : ∀ m : String, m.toList.length ≤ 2 → id ++ ending ≠ m := by
    rintro m hm rfl
    rw [String.toList_append, List.length_append] at hm
    omega
  exact ⟨hne "" (by decide), hne "." (by decide), hne ".." (by decide),
    fun h => (hchars _ h).1 rfl, fun h => (hchars _ h).2 rfl⟩

theorem isSegment_documentName (hid : isValidId id = true) : IsSegment (documentName id) :=
  isSegment_append hid rfl (by decide)

theorem isSegment_unfinishedName (hid : isValidId id = true) : IsSegment (unfinishedName id) :=
  isSegment_append hid rfl (by decide)

theorem unfinishedName_ne (id : String) : unfinishedName id ≠ documentName id := by
  intro h
  have hlength := congrArg (fun s => s.toList.length) h
  simp [unfinishedName, documentName] at hlength

theorem splitName_documentName (hid : isValidId id = true) :
    Path.splitName (documentName id) = (id, some "json") := by
  have hne : id ≠ "" := by
    rintro rfl
    exact absurd hid (by decide)
  have hname : documentName id = id ++ "." ++ "json" := by
    rw [documentName, String.append_assoc]
    rfl
  rw [hname, Path.splitName_append hne (by decide)]

/-- The path of a document with the extension of an unfinished one is that of the unfinished name. -/
theorem withExtension_documentName (hid : isValidId id = true) (directory : String) :
    Path.withExtension (Path.join directory (documentName id)) "json.tmp" =
      Path.join directory (unfinishedName id) := by
  have hname : (Path.splitName (documentName id)).1 ++ "." ++ "json.tmp" = unfinishedName id := by
    rw [splitName_documentName hid, String.append_assoc]
    rfl
  rw [Path.withExtension_join directory (isSegment_documentName hid)
    (hname ▸ (isSegment_unfinishedName hid).unslashed) (by decide), hname]

/-- What saving does under an identifier that is a name of files. -/
theorem save_of_valid (hid : isValidId g.id = true) :
    r.save g = (do
      checkId g.id
      file r.directory (FileM.makeDirs r.directory)
      file (Path.join r.directory (unfinishedName g.id))
        (FileM.writeFile (Path.join r.directory (unfinishedName g.id)) (g.toJson.pretty 0).toUTF8)
      file (Path.join r.directory (documentName g.id))
        (FileM.rename (Path.join r.directory (unfinishedName g.id))
          (Path.join r.directory (documentName g.id)))) := by
  rw [save]
  simp only [withExtension_documentName hid]

theorem run_checkId (hid : isValidId id = true) (d : Drive) :
    (checkId id).run.run d = (.ok (), d) := by
  rw [checkId, hid]
  rfl

theorem run_file {α : Type} (path : String) (op : FileM (Except OsError α)) (d : Drive) :
    (file path op).run.run d = ((op.run d).1.mapError (.io path), (op.run d).2) := by
  have hlift : (ExceptT.lift op : RepositoryM (Except OsError α)).run.run d =
      (.ok (op.run d).1, (op.run d).2) := rfl
  rw [file, run_bind, hlift]
  rcases op.run d with ⟨_ | _, d⟩ <;> rfl

/-- A change that succeeds has met no fault. -/
theorem write_eq_ok {path : String} {write : Volume → Except OsError Volume}
    {torn : Nat → Volume → Volume} {short : Volume → Volume}
    (h : (file path (FileM.writing write torn short)).run.run d = (.ok (), d')) :
    write d.volume = .ok d'.volume := by
  rw [run_file] at h
  obtain ⟨hanswer, hdrive⟩ := Prod.mk.inj h
  rcases FileM.writing_outcome write torn short d with ⟨v, hv, -, hvolume⟩ | ⟨e, he, -⟩
  · rw [hv, ← hdrive, hvolume]
  · rw [he] at hanswer
    cases hanswer

/-- What a graph that was saved has become of the volume. -/
theorem exists_of_save (h : (r.save g).run.run d = (.ok (), d')) :
    isValidId g.id = true ∧ ∃ v₁ v₂, d.volume.makeDirs r.directory = .ok v₁ ∧
      v₁.writeFile (Path.join r.directory (unfinishedName g.id)) (g.toJson.pretty 0).toUTF8 = .ok v₂ ∧
      v₂.rename (Path.join r.directory (unfinishedName g.id))
        (Path.join r.directory (documentName g.id)) = .ok d'.volume := by
  by_cases hid : isValidId g.id = true
  · rw [save_of_valid hid, run_bind_ok (run_checkId hid d)] at h
    obtain ⟨⟨⟩, d₁, hmake, h⟩ := exists_of_run_bind h
    obtain ⟨⟨⟩, d₂, hwrite, hrename⟩ := exists_of_run_bind h
    exact ⟨hid, d₁.volume, d₂.volume, write_eq_ok hmake, write_eq_ok hwrite, write_eq_ok hrename⟩
  · have hcheck : (checkId g.id).run.run d = (.error (.invalidId g.id), d) := by
      simp only [checkId, hid]
      rfl
    rw [save, run_bind_error hcheck] at h
    cases h

theorem run_findById {content : ByteArray} (hid : isValidId id = true)
    (hfault : d.faults.head?.join = none)
    (hread : d.volume.readFile (Path.join r.directory (documentName id)) = .ok content) :
    ((r.findById id).run.run d).1 =
      ((decodeBytes PropertyGraph.read content).map some).mapError .json := by
  have hlift : (ExceptT.lift (FileM.readFile (Path.join r.directory (documentName id))) :
      RepositoryM (Except OsError ByteArray)).run.run d =
        (.ok (.ok content), { d with faults := d.faults.tail }) := by
    have hreading := FileM.run_reading (d := d)
      (·.readFile (Path.join r.directory (documentName id)))
    simp only [hfault, hread] at hreading
    exact congrArg (fun p => (Except.ok p.1, p.2)) hreading
  rw [findById, run_bind_ok (run_checkId hid d), run_bind_ok hlift]
  rcases hdecode : decodeBytes PropertyGraph.read content with e | g
  all_goals
    simp only [hdecode]
    rfl

/-- Where a repository keeps the document of an identifier: in a directory with a path, on a volume
that is a tree, in which no link has the name of the document or of the unfinished one. -/
structure Site (r : FileRepository) (v : Volume) (id : String) : Prop where
  tree : v.IsTree
  directory : r.directory ≠ ""
  document : ∀ q target, v.item? (q ++ [documentName id]) ≠ some (.link target)
  unfinished : ∀ q target, v.item? (q ++ [unfinishedName id]) ≠ some (.link target)

/-- What is found of a graph that was saved is what its document is read as. -/
theorem findById_save (hsite : r.Site d.volume g.id) (hlegible : g.toJson.Legible)
    (hsave : (r.save g).run.run d = (.ok (), d')) (hfault : d'.faults.head?.join = none) :
    ((r.findById g.id).run.run d').1 =
      ((PropertyGraph.read .start g.toJson.toOutline).map some).mapError .json := by
  obtain ⟨hid, v₁, v₂, hmake, hwrite, hrename⟩ := exists_of_save hsave
  have hread := Volume.readFile_of_rename hsite.tree hsite.directory (isSegment_unfinishedName hid)
    (isSegment_documentName hid) (unfinishedName_ne g.id) hsite.unfinished hsite.document hmake
    hwrite hrename
  rw [run_findById hid hfault hread, decodeBytes_pretty _ _ hlegible]

/-- **Graphs survive persistence.** A graph that was built is found again as it was saved exactly if
its document tells it. Its doubles are read from their texts, its document does not nest too deep, and
the objects that an extension records have their members in the order of the names. -/
theorem findById_save_iff {steps : List BuilderStep} {b b' : GraphBuilder}
    (hrun : GraphBuilder.new.run steps = .ok b) (hbuild : b.build = .ok (g, b'))
    (hlegible : g.toJson.Legible) (hdepth : g.toJson.depth < 128)
    (hcanonical : ∀ v, g.Records v → v.canonical = v) (hsite : r.Site d.volume g.id)
    (hsave : (r.save g).run.run d = (.ok (), d')) (hfault : d'.faults.head?.join = none) :
    ((r.findById g.id).run.run d').1 = .ok (some g) ↔ g.Expressible := by
  obtain ⟨document, rfl⟩ := GraphBuilder.exists_ofDocument hrun hbuild
  rw [findById_save hsite hlegible hsave hfault,
    ← PropertyGraph.read_toJson_iff hlegible hdepth hcanonical]
  rcases PropertyGraph.read .start (PropertyGraph.ofDocument document).toJson.toOutline with e | g'
  · exact ⟨fun h => (nomatch h), fun h => (nomatch h)⟩
  · simp [Except.map, Except.mapError]

/-! ## A repository in a directory of its own -/

theorem run_save {v v₁ v₂ v₃ : Volume} (hid : isValidId g.id = true)
    (hmake : v.makeDirs r.directory = .ok v₁)
    (hwrite : v₁.writeFile (Path.join r.directory (unfinishedName g.id)) (g.toJson.pretty 0).toUTF8 =
      .ok v₂)
    (hrename : v₂.rename (Path.join r.directory (unfinishedName g.id))
      (Path.join r.directory (documentName g.id)) = .ok v₃) :
    (r.save g).run.run ⟨v, []⟩ = (.ok (), ⟨v₃, []⟩) := by
  have hstep : ∀ {path : String} {write : Volume → Except OsError Volume}
      {torn : Nat → Volume → Volume} {short : Volume → Volume} {u w : Volume}, write u = .ok w →
      (file path (FileM.writing write torn short)).run.run ⟨u, []⟩ = (.ok (), ⟨w, []⟩) := by
    intro path write torn short u w hw
    rw [run_file, FileM.writing_faultless rfl]
    simp only [hw]
    rfl
  rw [save_of_valid hid, run_bind_ok (run_checkId hid _)]
  refine (run_bind_ok (hstep hmake)).trans ?_
  refine (run_bind_ok (hstep hwrite)).trans ?_
  exact hstep hrename

/-- A volume with one directory. -/
def storeVolume : Volume :=
  ⟨[(["store"], .directory)], []⟩

/-- A repository in a directory that is not there yet. -/
def store : FileRepository :=
  ⟨Path.join "store" "graphs"⟩

theorem isPlain_store : IsPlain "store" := by decide

theorem isPlain_graphs : IsPlain "graphs" := by decide

theorem unlinked_storeVolume : storeVolume.Unlinked := by
  refine .of_entries rfl fun e he => ?_
  simp only [storeVolume, List.mem_singleton] at he
  subst he
  exact ⟨[], "store", rfl, rfl, isPlain_store, by simp⟩

theorem site_storeVolume (id : String) : store.Site storeVolume id :=
  ⟨unlinked_storeVolume.toIsTree, by decide, fun _ _ => unlinked_storeVolume.unlinked _ _,
    fun _ _ => unlinked_storeVolume.unlinked _ _⟩

theorem leadsTo_storeVolume : storeVolume.LeadsTo "store" ["store"] :=
  Volume.leadsTo_name rfl isPlain_store rfl

theorem readDir_store : storeVolume.readDir store.directory = .error .notFound := by
  rw [store, Volume.readDir, leadsTo_storeVolume.find_join_missing isPlain_graphs (by decide) rfl]
  rfl

theorem makeDirs_store : storeVolume.makeDirs store.directory =
    .ok (storeVolume.put ["store", "graphs"] .directory) :=
  leadsTo_storeVolume.makeDirs_join isPlain_graphs (by decide) rfl

theorem leadsTo_store :
    (storeVolume.put ["store", "graphs"] .directory).LeadsTo store.directory ["store", "graphs"] :=
  (leadsTo_storeVolume.within (Volume.within_makeDirs makeDirs_store)).join isPlain_graphs (by decide)
    rfl

/-- A graph of any content is saved under the identifier `g`. -/
theorem exists_save_store (g : PropertyGraph) (hg : g.id = "g") :
    ∃ w, (store.save g).run.run ⟨storeVolume, []⟩ = (.ok (), ⟨w, []⟩) := by
  have hnone : ∀ n i, (storeVolume.put ["store", "graphs"] .directory).item?
      (["store", "graphs"] ++ [n]) = some i → ∃ old, i = .file old := fun n i hi => nomatch hi
  obtain ⟨hwrite, hrename⟩ := leadsTo_store.publish (g.toJson.pretty 0).toUTF8
    (hnone (unfinishedName "g")) (hnone (documentName "g")) (by decide) (by decide) (by decide)
    (by decide) (unfinishedName_ne "g")
  rw [← hg] at hwrite hrename
  exact ⟨_, run_save (by rw [hg]; decide) makeDirs_store hwrite hrename⟩

/-! ## A member of any name -/

/-- A node in Rust whose extension records a text under a name of its choice. -/
def notedNode (name : String) : Node :=
  ⟨"n", .file, "N", { language := some "rust", extra := .ofList [(name, .string "note")] }, .empty,
    none⟩

def plainEdge : Edge := ⟨"e", .calls, "n", "m", {}, none⟩

/-- The graph that is built of these. -/
def notedGraph (name : String) : PropertyGraph :=
  .ofDocument ⟨⟨"g", "/a", "multi", 1, ["notes"]⟩, [notedNode name], [plainEdge]⟩

theorem run_notedSteps (name : String) :
    GraphBuilder.new.run [.start ⟨"g", "/a", "multi", 1, []⟩, .recordExtension "notes",
      .addNode (notedNode name), .addEdge plainEdge] = .ok ⟨some (notedGraph name)⟩ := rfl

theorem toJson_notedGraph (name : String) : (notedGraph name).toJson = .object [
    ("metadata", .object [("id", .string "g"), ("codebase_id", .string "/a"),
      ("language", .string "multi"), ("created_at", .ofWord 1),
      ("extensions", .array [.string "notes"])]),
    ("nodes", .array [.object [("id", .string "n"), ("type", .string "file"), ("name", .string "N"),
      ("metadata", .object [("language", .string "rust"), (name, .string "note")])]]),
    ("edges", .array [.object [("id", .string "e"), ("type", .string "calls"), ("from", .string "n"),
      ("to", .string "m"), ("metadata", .object [("weight", .number (.double 1.0))])]])] := by
  have hweight : Json.ofDouble 1.0 = .number (.double 1.0) := if_pos (by decide)
  rw [← hweight]
  rfl

theorem legible_notedGraph (name : String) : (notedGraph name).toJson.Legible := by
  rw [toJson_notedGraph]
  simp only [Legible, LegibleItems, LegibleMembers, Json.ofWord, and_true, true_and]
  exact ⟨trivial, legibleNumber_one⟩

theorem depth_notedGraph (name : String) : (notedGraph name).toJson.depth < 128 := by
  rw [toJson_notedGraph]
  simp [depth, depthItems, depthMembers, Json.ofWord]

theorem canonical_notedGraph {name : String} {v : Json} (h : (notedGraph name).Records v) :
    v.canonical = v := by
  rcases h with ⟨n, hn, k, hk⟩ | ⟨e, he, k, hk⟩
  · obtain rfl := List.mem_singleton.1 hn
    cases List.mem_singleton.1 hk
    rfl
  · obtain rfl := List.mem_singleton.1 he
    cases hk

theorem expressible_notedGraph : (notedGraph "owner").Expressible := by
  refine ⟨fun n hn x hx => ?_, fun e he => ?_, fun e he x hx => ?_⟩
  · obtain rfl := List.mem_singleton.1 hn
    obtain rfl := List.mem_singleton.1 hx
    decide
  · obtain rfl := List.mem_singleton.1 he
    decide
  · obtain rfl := List.mem_singleton.1 he
    cases hx

/-- A member whose name is no typed field's is found again. -/
theorem findById_save_owner : ∃ d', (store.save (notedGraph "owner")).run.run ⟨storeVolume, []⟩ =
    (.ok (), d') ∧ ((store.findById "g").run.run d').1 = .ok (some (notedGraph "owner")) := by
  obtain ⟨w, hsave⟩ := exists_save_store (notedGraph "owner") rfl
  exact ⟨_, hsave, (findById_save_iff (run_notedSteps "owner") rfl (legible_notedGraph "owner")
    (depth_notedGraph "owner") (fun _ => canonical_notedGraph) (site_storeVolume "g") hsave rfl).2
      expressible_notedGraph⟩

/-- It is not so that every graph is found again that was saved. -/
theorem findById_save_language : ¬ ∀ (steps : List BuilderStep) (b b' : GraphBuilder)
    (g : PropertyGraph) (r : FileRepository) (d d' : Drive),
    GraphBuilder.new.run steps = .ok b → b.build = .ok (g, b') → g.toJson.Legible →
    g.toJson.depth < 128 → (∀ v, g.Records v → v.canonical = v) → r.Site d.volume g.id →
    (r.save g).run.run d = (.ok (), d') → d'.faults.head?.join = none →
    ((r.findById g.id).run.run d').1 = .ok (some g) := by
  intro hclaim
  obtain ⟨w, hsave⟩ := exists_save_store (notedGraph "language") rfl
  have hfound := hclaim _ _ _ _ store _ _ (run_notedSteps "language") rfl (legible_notedGraph _)
    (depth_notedGraph _) (fun _ => canonical_notedGraph) (site_storeVolume "g") hsave rfl
  rw [findById_save (site_storeVolume "g") (legible_notedGraph _) hsave rfl] at hfound
  have hduplicate : ∃ e, PropertyGraph.read .start (notedGraph "language").toJson.toOutline =
      .error e := by
    rw [toJson_notedGraph]
    exact ⟨_, rfl⟩
  obtain ⟨e, he⟩ := hduplicate
  rw [he] at hfound
  cases hfound

end FileRepository

end CodeGraph
