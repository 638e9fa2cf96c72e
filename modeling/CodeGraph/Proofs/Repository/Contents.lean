import CodeGraph.Proofs.NameMap
import CodeGraph.Proofs.Repository.Operations
import CodeGraph.Proofs.Repository.Order

/-!
# What a directory of documents holds

A repository of files that nobody else writes to keeps a set of graphs as a directory with the document
of each and nothing else (`Holds`). Before the first graph is saved the directory may be missing
(`Unmade`). Either way (`Keeps`) each operation answers as a repository in memory does that keeps the
same graphs, and keeps the graphs that one keeps afterwards: `Keeps.run_save`, `Keeps.run_findById`,
`Keeps.run_findByCodebase`, `Keeps.run_delete`, `Keeps.run_list` and `Keeps.run_contains`.

The order in which a directory lists its files is not that of a map. The answers agree because nothing
that is asked depends on it: identifiers are different, so there is one listing of the graphs from the
oldest to the latest, and one that is the latest.
-/

namespace CodeGraph.MemoryRepository

/-! ## Graphs under their identifiers -/

/-- Each graph stands under its own identifier. -/
def IsFiled (r : MemoryRepository) : Prop :=
  ∀ id g, r.findById id = some g → g.id = id

variable {r : MemoryRepository}

theorem isFiled_empty : IsFiled {} := fun _ _ h => nomatch h

theorem IsFiled.save (h : r.IsFiled) (g : PropertyGraph) : (r.save g).IsFiled := by
  intro id x hx
  change (r.graphs.insert g.id g).get? id = some x at hx
  rw [NameMap.get?_insert] at hx
  split at hx
  · next hid =>
    obtain rfl := Option.some.inj hx
    exact hid.symm
  · exact h id x hx

theorem IsFiled.map_id (h : r.IsFiled) : r.metadata.map (·.id) = r.graphs.names := by
  rw [metadata, NameMap.values, NameMap.names, List.map_map, List.map_map]
  exact List.map_congr_left fun e he => h _ _ (NameMap.get?_eq_some_iff.2 he)

/-- The metadata that a repository lists is that of a graph of its identifier. -/
theorem IsFiled.exists_graph (h : r.IsFiled) {x : GraphMetadata} (hx : x ∈ r.metadata) :
    ∃ g, r.findById x.id = some g ∧ g.metadata = x := by
  obtain ⟨g, hg, rfl⟩ := List.mem_map.1 hx
  obtain ⟨⟨id, g⟩, he, rfl⟩ := List.mem_map.1 hg
  have hget := NameMap.get?_eq_some_iff.2 he
  obtain rfl := h id g hget
  exact ⟨g, hget, rfl⟩

end CodeGraph.MemoryRepository

namespace CodeGraph.FileRepository

open Json
open CodeGraph.Path (IsPlain)
open Volume (IsSegment longestName longestPath)

variable {r : FileRepository} {v w : Volume} {q : List String} {m : NameMap PropertyGraph}
  {g : PropertyGraph} {id name : String}

/-! ## Graphs that can be kept -/

/-- The contents of the file of a graph. -/
def document (g : PropertyGraph) : ByteArray :=
  (g.toJson.pretty 0).toUTF8

/-- A name that a file in the directory can have, and a path that is not too long. -/
structure Fits (r : FileRepository) (name : String) : Prop where
  short : name.utf8ByteSize ≤ longestName
  path : (Path.join r.directory name).utf8ByteSize ≤ longestPath

/-- An identifier of which a document can be asked for. -/
structure Names (r : FileRepository) (id : String) : Prop where
  valid : isValidId id = true
  fits : r.Fits (documentName id)

/-- A graph whose document can be written, and is read as the graph. -/
structure Storable (r : FileRepository) (g : PropertyGraph) : Prop where
  valid : isValidId g.id = true
  fits : r.Fits (unfinishedName g.id)
  reads : decodeBytes PropertyGraph.read (document g) = .ok g

theorem isPlain_documentName (h : r.Names id) : IsPlain (documentName id) :=
  (isSegment_documentName h.valid).isPlain h.fits.short

theorem Storable.isPlain (h : r.Storable g) : IsPlain (unfinishedName g.id) :=
  (isSegment_unfinishedName h.valid).isPlain h.fits.short

theorem unfinishedName_eq (id : String) : unfinishedName id = documentName id ++ ".tmp" := by
  rw [unfinishedName, documentName, String.append_assoc]
  rfl

/-- The document has a shorter name than the unfinished one. -/
theorem Storable.names (hdir : r.directory ≠ "") (h : r.Storable g) : r.Names g.id := by
  have hname := h.fits.short
  have hpath := h.fits.path
  have hjoin : Path.join r.directory (unfinishedName g.id) = r.documentPath g.id ++ ".tmp" := by
    rw [documentPath, Path.join_unslashed hdir h.isPlain.unslashed,
      Path.join_unslashed hdir (isSegment_documentName h.valid).unslashed, unfinishedName_eq]
    split <;> simp [String.append_assoc]
  rw [unfinishedName_eq, String.utf8ByteSize_append] at hname
  rw [hjoin, String.utf8ByteSize_append] at hpath
  exact ⟨h.valid, by omega, Nat.le_trans (Nat.le_add_right _ _) hpath⟩

theorem documentName_inj {id' : String} (h : documentName id = documentName id') : id = id' := by
  have hlist := congrArg String.toList h
  simp only [documentName, String.toList_append, List.append_cancel_right_eq] at hlist
  exact String.toList_inj.1 hlist

theorem unfinishedName_inj {id' : String} (h : unfinishedName id = unfinishedName id') : id = id' := by
  have hlist := congrArg String.toList h
  simp only [unfinishedName, String.toList_append, List.append_cancel_right_eq] at hlist
  exact String.toList_inj.1 hlist

theorem unfinishedName_ne_documentName (id id' : String) : unfinishedName id ≠ documentName id' := by
  intro h
  have hlast := congrArg (fun s => s.toList.getLast?) h
  simp [unfinishedName, documentName] at hlast

theorem storable_notedGraph : store.Storable (notedGraph "owner") := by
  refine ⟨by decide, ⟨by decide, by decide⟩, ?_⟩
  rw [document, decodeBytes_pretty _ _ (legible_notedGraph "owner")]
  exact (PropertyGraph.read_toJson_iff (legible_notedGraph "owner") (depth_notedGraph "owner")
    fun _ => canonical_notedGraph).2 expressible_notedGraph

theorem names_store : store.Names "g" := ⟨by decide, by decide, by decide⟩

/-! ## The directory -/

/-- A directory with the documents of some graphs and nothing else. -/
structure Holds (r : FileRepository) (q : List String) (v : Volume) (m : NameMap PropertyGraph) :
    Prop where
  tree : v.IsTree
  leads : v.LeadsTo r.directory q
  nodup : (v.children q).Nodup
  item : ∀ n i, v.item? (q ++ [n]) = some i ↔
    ∃ id g, n = documentName id ∧ m.get? id = some g ∧ i = .file (document g)
  graph : ∀ id g, m.get? id = some g → g.id = id ∧ r.Storable g

/-- A directory that is missing and can be made. -/
structure Unmade (r : FileRepository) (v : Volume) : Prop where
  tree : v.IsTree
  missing : v.readDir r.directory = .error .notFound
  made : ∃ q w, v.makeDirs r.directory = .ok w ∧ r.Holds q w .empty

/-- What a repository keeps: graphs in a directory, or none because there is no directory yet. -/
def Keeps (r : FileRepository) (v : Volume) (m : NameMap PropertyGraph) : Prop :=
  (∃ q, r.Holds q v m) ∨ m = .empty ∧ r.Unmade v

theorem Holds.item_document (h : r.Holds q v m) (hg : m.get? id = some g) :
    v.item? (q ++ [documentName id]) = some (.file (document g)) :=
  (h.item _ _).2 ⟨id, g, rfl, hg, rfl⟩

theorem Holds.no_document (h : r.Holds q v m) (hg : m.get? id = none) :
    v.item? (q ++ [documentName id]) = none := by
  rcases hi : v.item? (q ++ [documentName id]) with _ | i
  · rfl
  obtain ⟨id', g, hname, hget, -⟩ := (h.item _ _).1 hi
  rw [documentName_inj hname, hget] at hg
  cases hg

theorem Holds.names (h : r.Holds q v m) (hg : m.get? id = some g) : r.Names id := by
  obtain ⟨rfl, hstorable⟩ := h.graph id g hg
  exact hstorable.names h.leads.ne_empty

theorem Holds.exists_file (h : r.Holds q v m) (n : String) :
    ∀ i, v.item? (q ++ [n]) = some i → ∃ content, i = .file content := by
  intro i hi
  obtain ⟨id, g, -, -, rfl⟩ := (h.item n i).1 hi
  exact ⟨_, rfl⟩

/-- An empty directory holds the documents of no graphs. -/
theorem holds_empty (hv : v.IsTree) (hq : v.LeadsTo r.directory q) (hempty : v.children q = []) :
    r.Holds q v .empty where
  tree := hv
  leads := hq
  nodup := by simp [hempty]
  item n i := by
    refine ⟨fun hi => ?_, fun ⟨_, _, _, hget, _⟩ => nomatch hget⟩
    have hmem : n ∈ v.children q := Volume.mem_children.2 (by simp [hi])
    rw [hempty] at hmem
    cases hmem
  graph _ _ hg := nomatch hg

/-! ## Asking for a document -/

theorem Holds.find (h : r.Holds q v m) (hg : m.get? id = some g) (follow : Bool) :
    v.find follow (r.documentPath id) = .ok (q ++ [documentName id], .file (document g)) :=
  h.leads.find_join (isPlain_documentName (h.names hg)) (h.names hg).fits.path (h.item_document hg)
    (by simp) follow

theorem Holds.readFile (h : r.Holds q v m) (hg : m.get? id = some g) :
    v.readFile (r.documentPath id) = .ok (document g) := by
  rw [Volume.readFile, h.find hg]
  rfl

theorem Unmade.find_missing (h : r.Unmade v) (hid : r.Names id) (follow : Bool) :
    v.find follow (r.documentPath id) = .error .notFound := by
  obtain ⟨q, w, -, hw⟩ := h.made
  have hresolve := Volume.resolve_join_missing h.tree h.missing hw.leads.ne_empty hw.leads.unended
    hw.leads.short (isSegment_documentName hid.valid) hid.fits.path follow
  rw [Volume.find, hresolve]
  rfl

theorem Keeps.find_missing (h : r.Keeps v m) (hid : r.Names id) (hg : m.get? id = none)
    (follow : Bool) : v.find follow (r.documentPath id) = .error .notFound := by
  rcases h with ⟨q, h⟩ | ⟨-, h⟩
  · exact h.leads.find_join_missing (isPlain_documentName hid) hid.fits.path (h.no_document hg)
      follow
  · exact h.find_missing hid follow

theorem Keeps.exists_holds (h : r.Keeps v m) (hg : m.get? id = some g) : ∃ q, r.Holds q v m := by
  rcases h with h | ⟨rfl, -⟩
  · exact h
  · cases hg

theorem Keeps.run_findById (h : r.Keeps v m) (hid : r.Names id) :
    (r.findById id).run.run ⟨v, []⟩ = (.ok (m.get? id), ⟨v, []⟩) := by
  rcases hg : m.get? id with _ | g
  · refine run_findById_missing hid.valid ?_
    rw [Volume.readFile, h.find_missing hid hg]
    rfl
  · obtain ⟨q, hq⟩ := h.exists_holds hg
    rw [run_findById_ok hid.valid (hq.readFile hg), (hq.graph id g hg).2.reads]
    rfl

theorem Keeps.run_contains (h : r.Keeps v m) (hid : r.Names id) :
    (r.contains id).run.run ⟨v, []⟩ = (.ok (m.contains id), ⟨v, []⟩) := by
  rw [FileRepository.run_contains hid.valid, Volume.tryExists, Volume.metadata, NameMap.contains]
  rcases hg : m.get? id with _ | g
  · rw [h.find_missing hid hg]
    rfl
  · obtain ⟨q, hq⟩ := h.exists_holds hg
    rw [hq.find hg]
    rfl

/-! ## Saving and deleting -/

/-- A change of one document and of the graph of its identifier. -/
theorem Holds.update {w : Volume} {m' : NameMap PropertyGraph} (h : r.Holds q v m) (id : String)
    (hw : w.IsTree) (hq : w.LeadsTo r.directory q) (hnodup : (w.children q).Nodup)
    (hsame : ∀ n, n ≠ documentName id → w.item? (q ++ [n]) = v.item? (q ++ [n]))
    (hnew : w.item? (q ++ [documentName id]) = (m'.get? id).map fun g => .file (document g))
    (hother : ∀ id', id' ≠ id → m'.get? id' = m.get? id')
    (hgraph : ∀ g, m'.get? id = some g → g.id = id ∧ r.Storable g) : r.Holds q w m' := by
  refine ⟨hw, hq, hnodup, fun n i => ?_, fun id' g hget => ?_⟩
  · by_cases hn : n = documentName id
    · rw [hn, hnew, Option.map_eq_some_iff]
      constructor
      · rintro ⟨g, hget, rfl⟩
        exact ⟨id, g, rfl, hget, rfl⟩
      · rintro ⟨id', g, hname, hget, rfl⟩
        obtain rfl := documentName_inj hname
        exact ⟨g, hget, rfl⟩
    · have hid : ∀ {id'}, n = documentName id' → m'.get? id' = m.get? id' := by
        intro id' hname
        refine hother id' fun heq => hn ?_
        rw [hname, heq]
      rw [hsame n hn, h.item]
      constructor
      · rintro ⟨id', g, hname, hget, hi⟩
        exact ⟨id', g, hname, (hid hname).trans hget, hi⟩
      · rintro ⟨id', g, hname, hget, hi⟩
        exact ⟨id', g, hname, (hid hname).symm.trans hget, hi⟩
  · by_cases heq : id' = id
    · subst heq
      exact hgraph g hget
    · exact h.graph id' g ((hother id' heq).symm.trans hget)

theorem Holds.no_unfinished (h : r.Holds q v m) (id : String) :
    v.item? (q ++ [unfinishedName id]) = none := by
  rcases hi : v.item? (q ++ [unfinishedName id]) with _ | i
  · rfl
  obtain ⟨id', _, hname, -⟩ := (h.item _ i).1 hi
  exact absurd hname (unfinishedName_ne_documentName id id')

/-- A graph that is saved is the one of its identifier, and the others stay. -/
theorem Holds.published (h : r.Holds q v m) (hg : r.Storable g) :
    r.Holds q (v.published q (unfinishedName g.id) (documentName g.id) (document g))
      (m.insert g.id g) := by
  have hn := h.exists_file (unfinishedName g.id)
  have hm := h.exists_file (documentName g.id)
  refine h.update g.id (h.tree.published h.leads hn hm) (h.leads.published h.tree hn hm)
    (Volume.nodup_children_published _ _ _ h.nodup) (fun n hdoc => ?_) ?_
    (fun id' hid => NameMap.get?_insert_of_ne m g hid) fun g' hget => ?_
  · rw [Volume.item?_published, if_neg hdoc]
    split
    · next hunfinished => rw [hunfinished, h.no_unfinished]
    · rfl
  · rw [Volume.item?_published, if_pos rfl, NameMap.get?_insert_self]
    rfl
  · rw [NameMap.get?_insert_self] at hget
    obtain rfl := Option.some.inj hget
    exact ⟨rfl, hg⟩

theorem Keeps.run_save (h : r.Keeps v m) (hg : r.Storable g) :
    ∃ w, (r.save g).run.run ⟨v, []⟩ = (.ok (), ⟨w, []⟩) ∧ r.Keeps w (m.insert g.id g) := by
  obtain ⟨q, u, hmake, hu⟩ : ∃ q u, v.makeDirs r.directory = .ok u ∧ r.Holds q u m := by
    rcases h with ⟨q, h⟩ | ⟨rfl, h⟩
    · exact ⟨q, v, h.leads.makeDirs, h⟩
    · exact h.made
  have hnames := hg.names hu.leads.ne_empty
  obtain ⟨hwrite, hrename⟩ := hu.leads.publish (document g) (hu.exists_file (unfinishedName g.id))
    (hu.exists_file (documentName g.id)) hg.isPlain hg.fits.path (isPlain_documentName hnames)
    hnames.fits.path (unfinishedName_ne g.id)
  exact ⟨_, FileRepository.run_save hg.valid hmake hwrite hrename, .inl ⟨q, hu.published hg⟩⟩

/-- A graph that is deleted is gone, and the others stay. -/
theorem Holds.removed (h : r.Holds q v m) (hg : m.get? id = some g) :
    r.Holds q (v.remove (q ++ [documentName id])) (m.erase id) := by
  have hstarts : ∀ n, (q ++ [documentName id]).isPrefixOf (q ++ [n]) = true ↔ documentName id = n := by
    simp
  have hgone : (m.erase id).get? id = none := by
    rw [NameMap.get?_erase, if_pos rfl]
  refine h.update id (h.tree.remove (by simp [h.item_document hg]))
    (h.leads.remove h.tree (h.exists_file _)) (Volume.nodup_children_remove _ h.nodup)
    (fun n hdoc => ?_) ?_ (fun id' hid => ?_) fun g' hget => ?_
  · rw [Volume.item?_remove, if_neg fun hn => hdoc ((hstarts n).1 hn.2).symm]
  · rw [Volume.item?_remove, if_pos ⟨by simp, (hstarts _).2 rfl⟩, hgone]
    rfl
  · rw [NameMap.get?_erase, if_neg hid]
  · rw [hgone] at hget
    cases hget

theorem Keeps.run_delete (h : r.Keeps v m) (hid : r.Names id) :
    ∃ w, (r.delete id).run.run ⟨v, []⟩ = (.ok (m.contains id), ⟨w, []⟩) ∧ r.Keeps w (m.erase id) := by
  rcases hg : m.get? id with _ | g
  · have hmissing : v.removeFile (r.documentPath id) = .error .notFound := by
      rw [Volume.removeFile, h.find_missing hid hg]
      rfl
    refine ⟨v, ?_, ?_⟩
    · rw [run_delete_missing hid.valid hmissing, NameMap.contains, hg]
      rfl
    · rw [NameMap.erase_eq_self hg]
      exact h
  · obtain ⟨q, hq⟩ := h.exists_holds hg
    have hremove := hq.leads.removeFile_join (isPlain_documentName hid) hid.fits.path
      (hq.item_document hg)
    refine ⟨_, ?_, .inl ⟨q, hq.removed hg⟩⟩
    rw [FileRepository.run_delete hid.valid hremove, NameMap.contains, hg]
    rfl

/-! ## Listing -/

theorem Holds.metadataAt? (h : r.Holds q v m) (hg : m.get? id = some g) :
    r.metadataAt? v (documentName id) = some g.metadata := by
  have hopens : r.Opens (documentName id) := opens_documentName (h.names hg).valid
  have hmetadata := decodeBytes_metadataRecord (h.graph id g hg).2.reads (isObject_pretty g)
  rw [FileRepository.metadataAt?, if_pos hopens, h.readFile hg]
  simp [Except.toOption, hmetadata]

/-- A directory lists the documents of the graphs, in some order. -/
theorem Holds.children_perm (h : r.Holds q v m) :
    (v.children q).Perm (m.names.map documentName) := by
  have hnames : (m.names.map documentName).Nodup :=
    m.nodup_names.map fun _ _ => documentName_inj
  refine (List.perm_ext_iff_of_nodup h.nodup hnames).2 fun n => ?_
  rw [Volume.mem_children, Option.isSome_iff_exists, List.mem_map]
  constructor
  · rintro ⟨i, hi⟩
    obtain ⟨id, g, rfl, hget, -⟩ := (h.item n i).1 hi
    exact ⟨id, NameMap.mem_names_iff.2 (by simp [hget]), rfl⟩
  · rintro ⟨id, hid, rfl⟩
    obtain ⟨g, hget⟩ := Option.isSome_iff_exists.1 (NameMap.mem_names_iff.1 hid)
    exact ⟨_, h.item_document hget⟩

/-- A scan finds the metadata of the graphs, in some order. -/
theorem Holds.run_scan (h : r.Holds q v m) :
    ∃ l, (r.scan).run.run ⟨v, []⟩ = (.ok l, ⟨v, []⟩) ∧ l.Perm (m.values.map (·.metadata)) := by
  refine ⟨_, FileRepository.run_scan h.leads.readDir fun n hn _ => ?_, ?_⟩
  · obtain ⟨i, hi⟩ := Option.isSome_iff_exists.1 (Volume.mem_children.1 hn)
    obtain ⟨id, g, rfl, hget, -⟩ := (h.item n i).1 hi
    exact ⟨_, h.readFile hget⟩
  · have hentries : ∀ e ∈ m.entries,
        r.metadataAt? v (documentName e.1) = some e.2.metadata := fun e he =>
      h.metadataAt? (NameMap.get?_eq_some_iff.2 he)
    have hvalues : (m.names.map documentName).filterMap (r.metadataAt? v) =
        m.values.map (·.metadata) := by
      simp only [NameMap.names, NameMap.values, List.map_map, List.filterMap_map]
      rw [← List.filterMap_eq_map]
      exact List.filterMap_congr hentries
    exact hvalues ▸ h.children_perm.filterMap _

theorem Keeps.run_scan (h : r.Keeps v m) :
    ∃ l, (r.scan).run.run ⟨v, []⟩ = (.ok l, ⟨v, []⟩) ∧ l.Perm (m.values.map (·.metadata)) := by
  rcases h with ⟨q, h⟩ | ⟨rfl, h⟩
  · exact h.run_scan
  · exact ⟨[], run_scan_missing h.missing, .refl _⟩

theorem Keeps.isFiled (h : r.Keeps v m) : MemoryRepository.IsFiled ⟨m⟩ := by
  intro id g hget
  obtain ⟨q, hq⟩ := h.exists_holds hget
  exact (hq.graph id g hget).1

/-- The identifiers of the graphs are their names, so they are different. -/
theorem Keeps.map_id (h : r.Keeps v m) : (m.values.map (·.metadata)).map (·.id) = m.names :=
  h.isFiled.map_id

theorem Keeps.nodup_id (h : r.Keeps v m) : ((m.values.map (·.metadata)).map (·.id)).Nodup :=
  h.map_id ▸ m.nodup_names

theorem Keeps.run_list (h : r.Keeps v m) :
    (r.list).run.run ⟨v, []⟩ = (.ok (MemoryRepository.list ⟨m⟩), ⟨v, []⟩) := by
  obtain ⟨l, hscan, hperm⟩ := h.run_scan
  rw [FileRepository.run_list hscan, GraphMetadata.oldestFirst_eq_of_perm h.nodup_id hperm]
  rfl

/-- The metadata that a repository lists is that of a graph of its identifier. -/
theorem Keeps.exists_graph (h : r.Keeps v m) {x : GraphMetadata}
    (hx : x ∈ m.values.map (·.metadata)) : ∃ g, m.get? x.id = some g ∧ g.metadata = x :=
  h.isFiled.exists_graph hx

theorem Keeps.run_findByCodebase (h : r.Keeps v m) (codebase : String) :
    (r.findByCodebase codebase).run.run ⟨v, []⟩ =
      (.ok (MemoryRepository.findByCodebase ⟨m⟩ codebase), ⟨v, []⟩) := by
  obtain ⟨l, hscan, hperm⟩ := h.run_scan
  have hlatest : GraphMetadata.latest? (l.filter fun m => m.codebase == codebase) =
      GraphMetadata.latest? ((m.values.map (·.metadata)).filter fun m => m.codebase == codebase) := by
    rw [GraphMetadata.latest?_filter h.nodup_id,
      GraphMetadata.latest?_filter ((hperm.map _).nodup_iff.2 h.nodup_id),
      GraphMetadata.oldestFirst_eq_of_perm h.nodup_id hperm]
  have hmemory : MemoryRepository.findByCodebase ⟨m⟩ codebase =
      (GraphMetadata.latest? ((m.values.map (·.metadata)).filter fun m => m.codebase == codebase)).bind
        fun x => m.get? x.id := rfl
  rw [FileRepository.run_findByCodebase codebase hscan, hlatest, hmemory]
  generalize hx : GraphMetadata.latest? (List.filter _ _) = found
  rcases found with _ | x
  · rfl
  · obtain ⟨g, hget, -⟩ := h.exists_graph (List.mem_filter.1 (GraphMetadata.latest?_eq_some hx).1).1
    obtain ⟨q, hq⟩ := h.exists_holds hget
    exact h.run_findById (hq.names hget)

end CodeGraph.FileRepository
