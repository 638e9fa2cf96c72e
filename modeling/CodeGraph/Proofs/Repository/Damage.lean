import CodeGraph.Proofs.Repository.Contents

/-!
# Directories with other entries

What a repository of files answers for a graph whose document is in its directory, whatever else is in
there (`FileRepository.answers_beside`). Text that is no document is passed over. But an entry whose
name ends in `.json` and that is no file makes every listing and every search fail, and the search for
a codebase trusts the latest metadata in the directory, of whatever file: it finds what the identifier
in it finds, be that an error, nothing, or a graph of another codebase.
-/

namespace CodeGraph.FileRepository

open Json
open CodeGraph.Path (IsPlain)

variable {r : FileRepository} {v : Volume} {id : String} {content : ByteArray} {g : PropertyGraph}

/-- A file that can be read is one of the directory. -/
theorem exists_readDir_of_readFile (hdir : r.directory ≠ "") (hid : isValidId id = true)
    (hread : v.readFile (r.documentPath id) = .ok content) :
    ∃ names, v.readDir r.directory = .ok names ∧ documentName id ∈ names ∧
      r.Opens (documentName id) := by
  rw [Volume.readFile] at hread
  rcases hfind : v.find true (r.documentPath id) with e | ⟨s, i⟩
  · rw [hfind] at hread
    cases hread
  obtain ⟨hn, hlen, q, hq⟩ := Volume.LeadsTo.of_resolve_join hdir (isSegment_documentName hid)
    (Volume.resolve_of_find hfind)
  refine ⟨v.children q, hq.readDir, Volume.mem_children.2 ?_, opens_documentName hid⟩
  rcases hi : v.item? (q ++ [documentName id]) with _ | j
  · rw [hq.find_join_missing hn hlen hi] at hfind
    cases hfind
  · rfl

/-- A scan finds the metadata of a graph in its document, provided that this is an object. -/
theorem metadataAt?_documentName (hopens : r.Opens (documentName id))
    (hread : v.readFile (r.documentPath id) = .ok content)
    (hdecode : decodeBytes PropertyGraph.read content = .ok g) :
    (IsObject content → r.metadataAt? v (documentName id) = some g.metadata) ∧
      (¬ IsObject content → r.metadataAt? v (documentName id) = none) := by
  have hfound : r.metadataAt? v (documentName id) =
      (decodeBytes metadataRecord.read content).toOption := by
    rw [metadataAt?, if_pos hopens, hread]
    rfl
  constructor
  · intro hobject
    rw [hfound, decodeBytes_metadataRecord hdecode hobject]
    rfl
  · intro hobject
    obtain ⟨e, he⟩ := exists_error_metadataRecord hdecode hobject
    rw [hfound, he]
    rfl

/-- **A document among other entries.** A listing fails at an entry of a name ending in `.json` that
cannot be read as a file, and so does a search for any codebase. If there is none, a listing has the
metadata of the graph, provided that its document is an object, and a search for a codebase finds what
the identifier of the last metadata of the codebase in the listing finds: the graph, if that is its
identifier. -/
theorem answers_beside (hdir : r.directory ≠ "") (hid : isValidId id = true)
    (hread : v.readFile (r.documentPath id) = .ok content)
    (hdecode : decodeBytes PropertyGraph.read content = .ok g) (hg : g.id = id) :
    ∃ names, v.readDir r.directory = .ok names ∧ documentName id ∈ names ∧
      (¬ r.Readable v names →
        ∃ n ∈ names, ∃ e, r.Opens n ∧ v.readFile (Path.join r.directory n) = .error e ∧
          r.list.run.run ⟨v, []⟩ = (.error (.io (Path.join r.directory n) e), ⟨v, []⟩) ∧
          ∀ codebase, (r.findByCodebase codebase).run.run ⟨v, []⟩ =
            (.error (.io (Path.join r.directory n) e), ⟨v, []⟩)) ∧
      (r.Readable v names →
        ∃ l, r.list.run.run ⟨v, []⟩ = (.ok l, ⟨v, []⟩) ∧
          (∀ x, x ∈ l ↔ ∃ n ∈ names, r.metadataAt? v n = some x) ∧
          (IsObject content → g.metadata ∈ l) ∧
          (¬ IsObject content → r.metadataAt? v (documentName id) = none) ∧
          (∀ codebase, (r.findByCodebase codebase).run.run ⟨v, []⟩ =
            match (l.filter fun x => x.codebase == codebase).getLast? with
            | some x => (r.findById x.id).run.run ⟨v, []⟩
            | none => (.ok none, ⟨v, []⟩)) ∧
          ∀ codebase x, (l.filter fun x => x.codebase == codebase).getLast? = some x → x.id = g.id →
            (r.findByCodebase codebase).run.run ⟨v, []⟩ = (.ok (some g), ⟨v, []⟩)) := by
  obtain ⟨names, hnames, hmem, hopens⟩ := exists_readDir_of_readFile hdir hid hread
  obtain ⟨hobject, harray⟩ := metadataAt?_documentName hopens hread hdecode
  refine ⟨names, hnames, hmem, fun h => ?_, fun h => ?_⟩
  · obtain ⟨n, hn, e, hn', he, hscan⟩ := exists_run_scan_error hnames h
    exact ⟨n, hn, e, hn', he, run_list_error hscan, fun codebase =>
      run_findByCodebase_error codebase hscan⟩
  · have hscan := run_scan hnames h
    have hsearch : ∀ codebase, (r.findByCodebase codebase).run.run ⟨v, []⟩ = _ :=
      fun codebase => run_findByCodebase_last codebase hscan
    have hlisted : ∀ x, x ∈ GraphMetadata.oldestFirst (names.filterMap (r.metadataAt? v)) ↔
        ∃ n ∈ names, r.metadataAt? v n = some x := fun x =>
      (GraphMetadata.perm_oldestFirst _).mem_iff.trans List.mem_filterMap
    refine ⟨_, run_list hscan, hlisted, fun h => (hlisted _).2 ⟨_, hmem, hobject h⟩, harray, hsearch,
      fun codebase x hx hxid => ?_⟩
    rw [hsearch, hx]
    dsimp only
    rw [hxid, hg, run_findById_ok hid hread, hdecode]
    rfl

/-! ## Other entries -/

/-- The volume of a repository with one graph and another entry beside its document. -/
def besideVolume (name : String) (other : Item) : Volume :=
  ⟨[(["graphs"], .directory), (["graphs", "g.json"], .file (document (notedGraph "owner"))),
    (["graphs", name], other)], []⟩

section Beside

variable {name : String} {other : Item}

theorem unlinked_besideVolume (hname : IsPlain name) (hother : ∀ target, other ≠ .link target) :
    (besideVolume name other).Unlinked := by
  refine .of_entries rfl fun e he => ?_
  simp only [besideVolume, List.mem_cons, List.not_mem_nil, or_false] at he
  rcases he with rfl | rfl | rfl
  · exact ⟨[], "graphs", rfl, rfl, isPlain_graphs, by simp⟩
  · exact ⟨["graphs"], _, rfl, rfl, (by decide), by simp⟩
  · exact ⟨["graphs"], name, rfl, rfl, hname, hother⟩

theorem leadsTo_besideVolume : (besideVolume name other).LeadsTo "graphs" ["graphs"] :=
  Volume.leadsTo_name rfl isPlain_graphs rfl

theorem readFile_besideVolume : (besideVolume name other).readFile (documentPath ⟨"graphs"⟩ "g") =
    .ok (document (notedGraph "owner")) :=
  leadsTo_besideVolume.readFile_join (by decide) (by decide) rfl

end Beside

/-- A text that is no document. -/
def notes : ByteArray :=
  "\x7b\x7d".toUTF8

theorem readFile_notes : (besideVolume "notes.json" (.file notes)).readFile
    (Path.join "graphs" "notes.json") = .ok notes :=
  leadsTo_besideVolume.readFile_join (by decide) (by decide) rfl

theorem children_notes : (besideVolume "notes.json" (.file notes)).children ["graphs"] =
    ["g.json", "notes.json"] := rfl

theorem readable_notes : Readable ⟨"graphs"⟩ (besideVolume "notes.json" (.file notes))
    ((besideVolume "notes.json" (.file notes)).children ["graphs"]) := by
  rw [Readable, children_notes, List.forall_mem_cons, List.forall_mem_singleton]
  exact ⟨fun _ => ⟨_, readFile_besideVolume⟩, fun _ => ⟨_, readFile_notes⟩⟩

theorem metadataAt?_notes :
    metadataAt? ⟨"graphs"⟩ (besideVolume "notes.json" (.file notes)) "notes.json" = none := by
  have hdecode : (decodeBytes metadataRecord.read notes).toOption = none := by
    rw [notes, decodeBytes_toUTF8]
    rfl
  rw [metadataAt?, if_pos (by decide), readFile_notes]
  exact hdecode

/-- The only metadata in the directory is that of the graph. -/
theorem eq_of_metadataAt?_notes {n : String} {x : GraphMetadata}
    (hn : n ∈ (besideVolume "notes.json" (.file notes)).children ["graphs"])
    (hx : metadataAt? ⟨"graphs"⟩ (besideVolume "notes.json" (.file notes)) n = some x) :
    x = (notedGraph "owner").metadata := by
  rw [children_notes] at hn
  rcases List.mem_pair.1 hn with rfl | rfl
  · obtain ⟨hdocument, -⟩ := metadataAt?_documentName (r := ⟨"graphs"⟩)
      (v := besideVolume "notes.json" (.file notes)) (by decide) readFile_besideVolume
      storable_notedGraph.reads
    exact Option.some.inj (hx.symm.trans (hdocument (isObject_pretty _)))
  · rw [metadataAt?_notes] at hx
    cases hx

/-- A graph is listed and found beside a text that is no document. -/
theorem answers_beside_notes : ∃ l,
    (FileRepository.list ⟨"graphs"⟩).run.run ⟨besideVolume "notes.json" (.file notes), []⟩ =
      (.ok l, ⟨besideVolume "notes.json" (.file notes), []⟩) ∧ (notedGraph "owner").metadata ∈ l ∧
      (findByCodebase ⟨"graphs"⟩ "/a").run.run ⟨besideVolume "notes.json" (.file notes), []⟩ =
        (.ok (some (notedGraph "owner")), ⟨besideVolume "notes.json" (.file notes), []⟩) := by
  obtain ⟨names, hnames, -, -, hanswers⟩ := answers_beside (r := ⟨"graphs"⟩)
    (v := besideVolume "notes.json" (.file notes)) (by decide) (by decide) readFile_besideVolume
    storable_notedGraph.reads rfl
  obtain rfl := Except.ok.inj (leadsTo_besideVolume.readDir.symm.trans hnames)
  obtain ⟨l, hlist, hmem, hlisted, -, -, hfound⟩ := hanswers readable_notes
  have hown := hlisted (isObject_pretty _)
  refine ⟨l, hlist, hown, ?_⟩
  rcases hlast : (l.filter fun x => x.codebase == "/a").getLast? with _ | x
  · have hfilter : (notedGraph "owner").metadata ∈ l.filter fun x => x.codebase == "/a" :=
      List.mem_filter.2 ⟨hown, by decide⟩
    rw [List.getLast?_eq_none_iff.1 hlast] at hfilter
    cases hfilter
  · obtain ⟨front, hfront⟩ := List.getLast?_eq_some_iff.1 hlast
    have hx : x ∈ l.filter fun x => x.codebase == "/a" := by simp [hfront]
    obtain ⟨n, hn, hmetadata⟩ := (hmem x).1 (List.mem_filter.1 hx).1
    exact hfound "/a" x hlast (congrArg (·.id) (eq_of_metadataAt?_notes hn hmetadata))

/-- A directory cannot be read as a file. -/
theorem not_readable_besideVolume : ¬ Readable ⟨"graphs"⟩ (besideVolume "sub.json" .directory)
    ((besideVolume "sub.json" .directory).children ["graphs"]) := by
  intro h
  obtain ⟨content, hread⟩ := h "sub.json" (by decide) (by decide)
  have hfind : (besideVolume "sub.json" .directory).find true (Path.join "graphs" "sub.json") =
      .ok (["graphs"] ++ ["sub.json"], .directory) :=
    leadsTo_besideVolume.find_join (by decide) (by decide) rfl (by simp) true
  rw [Volume.readFile, hfind] at hread
  cases hread

/-- It is not so that a graph whose document is in the directory is always listed and always found for
its codebase: a directory beside the document may have a name ending in `.json`. -/
theorem list_beside_directory : ¬ ∀ (r : FileRepository) (v : Volume) (id : String)
    (content : ByteArray) (g : PropertyGraph), v.IsTree → r.directory ≠ "" → isValidId id = true →
    v.readFile (r.documentPath id) = .ok content →
    decodeBytes PropertyGraph.read content = .ok g → g.id = id →
    (∃ l, r.list.run.run ⟨v, []⟩ = (.ok l, ⟨v, []⟩) ∧ g.metadata ∈ l) ∧
      ∃ found, (r.findByCodebase g.metadata.codebase).run.run ⟨v, []⟩ =
        (.ok (some found), ⟨v, []⟩) ∧ found.metadata.codebase = g.metadata.codebase := by
  intro hclaim
  obtain ⟨⟨l, hlist, -⟩, -⟩ := hclaim ⟨"graphs"⟩ (besideVolume "sub.json" .directory) "g" _ _
    (unlinked_besideVolume (by decide) (by simp)).toIsTree (by decide) (by decide)
    readFile_besideVolume storable_notedGraph.reads rfl
  obtain ⟨n, -, e, -, -, hscan⟩ := exists_run_scan_error leadsTo_besideVolume.readDir
    not_readable_besideVolume
  rw [run_list_error hscan] at hlist
  cases hlist

end CodeGraph.FileRepository
