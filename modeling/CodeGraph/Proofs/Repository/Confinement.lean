import CodeGraph.Proofs.Cache.Entry
import CodeGraph.Proofs.Repository.Alike
import CodeGraph.Proofs.Repository.Saving
import CodeGraph.Proofs.Volume.Missing

/-!
# What the calls about an identifier touch

An identifier that cannot be the name of a file is refused, and no operation on files is carried out for
it (`FileRepository.refuses`). The calls about any other one carry out operations on two paths, those of
its document and of the unfinished one (`FileRepository.carries`). Both are names in the directory of the
repository, so whatever characters the identifier is made of, what the calls touch are two places in this
directory, or the files to which links at these places lead (`FileRepository.confined`). No two identifiers
share a file, and the identifier of a new graph is never refused (`FileRepository.ids_confined`).
-/

namespace CodeGraph

/-! ## Identifiers of new graphs -/

namespace GraphMetadata

/-- An identifier ends in sixteen digits. -/
theorem exists_identifier (codebase : String) (t : UInt64) : ∃ l : List Char,
    identifier codebase t = "graph_" ++ String.ofList l ∧ l.length = 16 ∧
      ∀ c ∈ l, c ∈ Cache.digits := by
  have hdigest := Cache.isDigest_hex (identity codebase t).toUTF8.toList
  refine ⟨_, rfl, ?_, fun c hc => hdigest.digit c (List.mem_of_mem_take hc)⟩
  rw [List.length_take, Nat.min_eq_left]
  exact hdigest.length.symm ▸ (by decide)

theorem isValidId_identifier (codebase : String) (t : UInt64) :
    FileRepository.isValidId (identifier codebase t) = true := by
  obtain ⟨l, hl, -, hdigits⟩ := exists_identifier codebase t
  have hall : (Cache.digits.all fun c => c.isAlphanum) = true := by decide
  have htail : ∀ c ∈ l, c.isAlphanum = true := fun c hc => List.all_eq_true.1 hall c (hdigits c hc)
  have hchars : ("graph_" ++ String.ofList l).toList = "graph_".toList ++ l := by
    simp
  rw [hl, FileRepository.isValidId, hchars]
  simp only [List.all_append, Bool.and_eq_true]
  refine ⟨⟨rfl, rfl, List.all_eq_true.2 fun c hc => ?_⟩, rfl⟩
  simp [htail c hc]

theorem utf8ByteSize_identifier (codebase : String) (t : UInt64) :
    (identifier codebase t).utf8ByteSize = 22 := by
  obtain ⟨l, hl, hlength, hdigits⟩ := exists_identifier codebase t
  rw [hl, String.utf8ByteSize_append, Cache.utf8ByteSize_ofList fun c hc =>
    Cache.utf8Size_of_mem_digits (hdigits c hc), hlength]
  rfl

end GraphMetadata

namespace FileRepository

open Volume (IsSegment)

variable {α β : Type} {r : FileRepository} {v w : Volume} {d : Drive} {id id' : String}

/-! ## The operations of a call -/

/-- Carries out one operation on files, and answers from what it gives. -/
def asking (op : FileM (Except OsError β)) (answer : Except OsError β → Except RepositoryError α) :
    RepositoryM α := do
  match answer (← ExceptT.lift op) with
  | .ok a => return a
  | .error e => throw e

/-- What is answered where the document of an identifier was read. -/
def graphRead (r : FileRepository) (id : String) :
    Except OsError ByteArray → Except RepositoryError (Option PropertyGraph)
  | .error .notFound => .ok none
  | .error e => .error (.io (r.documentPath id) e)
  | .ok content => ((Json.decodeBytes PropertyGraph.read content).map some).mapError .json

/-- What is answered where the document of an identifier was taken away. -/
def documentRemoved (r : FileRepository) (id : String) : Except OsError Unit → Except RepositoryError Bool
  | .ok _ => .ok true
  | .error .notFound => .ok false
  | .error e => .error (.io (r.documentPath id) e)

/-- All calls refuse an identifier, with no operation on files. -/
structure Refuses (r : FileRepository) (id : String) : Prop where
  findById : r.findById id = throw (.invalidId id)
  delete : r.delete id = throw (.invalidId id)
  contains : r.contains id = throw (.invalidId id)
  save : ∀ g : PropertyGraph, g.id = id → r.save g = throw (.invalidId id)

/-- The calls about an identifier carry out operations on the paths of its two names, and saving makes
the directory before. -/
structure Carries (r : FileRepository) (id : String) : Prop where
  findById : r.findById id = asking (FileM.readFile (r.documentPath id)) (r.graphRead id)
  delete : r.delete id = asking (FileM.removeFile (r.documentPath id)) (r.documentRemoved id)
  contains : r.contains id =
    asking (FileM.tryExists (r.documentPath id)) (Except.mapError (.io (r.documentPath id)))
  save : ∀ g : PropertyGraph, g.id = id → r.save g = (do
    file r.directory (FileM.makeDirs r.directory)
    file (r.unfinishedPath id) (FileM.writeFile (r.unfinishedPath id) (document g))
    file (r.documentPath id) (FileM.rename (r.unfinishedPath id) (r.documentPath id)))

theorem checkId_bind_of_valid (hid : isValidId id = true) (next : Unit → RepositoryM α) :
    checkId id >>= next = next () := by
  rw [checkId, hid]
  rfl

theorem checkId_bind_of_invalid (hid : isValidId id = false) (next : Unit → RepositoryM α) :
    checkId id >>= next = throw (.invalidId id) := by
  rw [checkId, hid]
  rfl

theorem refuses (r : FileRepository) (hid : isValidId id = false) : r.Refuses id := by
  refine ⟨checkId_bind_of_invalid hid _, checkId_bind_of_invalid hid _,
    checkId_bind_of_invalid hid _, ?_⟩
  rintro g rfl
  exact checkId_bind_of_invalid hid _

theorem carries (r : FileRepository) (hid : isValidId id = true) : r.Carries id := by
  refine ⟨?_, ?_, ?_, ?_⟩
  · refine (checkId_bind_of_valid hid _).trans (congrArg (ExceptT.lift _ >>= ·) (funext fun a => ?_))
    rcases a with e | content
    · cases e <;> rfl
    · rcases hdecode : Json.decodeBytes PropertyGraph.read content with e | g <;>
        simp only [graphRead, hdecode] <;> rfl
  · refine (checkId_bind_of_valid hid _).trans (congrArg (ExceptT.lift _ >>= ·) (funext fun a => ?_))
    rcases a with e | ⟨⟩
    · cases e <;> rfl
    · rfl
  · refine (checkId_bind_of_valid hid _).trans (congrArg (ExceptT.lift _ >>= ·) (funext fun a => ?_))
    rcases a with e | b <;> rfl
  · rintro g rfl
    exact save_of_valid hid |>.trans (checkId_bind_of_valid hid _)

theorem run_asking (op : FileM (Except OsError β))
    (answer : Except OsError β → Except RepositoryError α) (d : Drive) :
    ((asking op answer).run.run d).2 = (op.run d).2 := by
  have hlift : (ExceptT.lift op : RepositoryM (Except OsError β)).run.run d =
      (.ok (op.run d).1, (op.run d).2) := rfl
  rw [asking, run_bind_ok hlift]
  rcases answer (op.run d).1 with e | a <;> rfl

/-! ## The places of a call -/

/-- What the calls about an identifier touch on a volume. -/
structure Confined (r : FileRepository) (id : String) (v : Volume) : Prop where
  /-- Both paths lead to places in the directory, or on from a link there. -/
  place : ∀ n ∈ [documentName id, unfinishedName id], ∀ follow s i,
    v.resolve follow (Path.join r.directory n) = .ok (s, i) → ∃ q, v.LooksIn r.directory q ∧
      (s = q ++ [n] ∨ follow = true ∧ ∃ target, v.item? (q ++ [n]) = some (.link target))
  /-- Where no link is followed, the answers depend on what is at the place of the document only. -/
  answer : ∀ w q q', w.IsTree → v.LooksIn r.directory q → w.LooksIn r.directory q' →
    v.item? (q ++ [documentName id]) = w.item? (q' ++ [documentName id]) →
    (∀ target, v.item? (q ++ [documentName id]) ≠ some (.link target)) →
    Alike v w (r.findById id) ∧ Alike v w (r.contains id)
  /-- Nothing is changed where something is looked for. -/
  findById : ∀ faults, ((r.findById id).run.run ⟨v, faults⟩).2.volume = v
  contains : ∀ faults, ((r.contains id).run.run ⟨v, faults⟩).2.volume = v
  delete : ∀ faults, let w := ((r.delete id).run.run ⟨v, faults⟩).2.volume
    w.current = v.current ∧ ∀ s, w.item? s = v.item? s ∨
      ∃ q, v.LooksIn r.directory q ∧ s = q ++ [documentName id]
  /-- Saving makes the directories that the path of the repository wants. -/
  save : ∀ (g : PropertyGraph) faults, g.id = id →
    let w := ((r.save g).run.run ⟨v, faults⟩).2.volume
    w.current = v.current ∧ ∀ s, w.item? s = v.item? s ∨
      (v.item? s = none ∧ w.item? s = some .directory ∧ v.Wants r.directory s) ∨
      ∃ u, v.makeDirs r.directory = .ok u ∧ r.Reaches id u s

theorem delete_cases (hid : isValidId id = true) (hv : d.volume.IsTree) :
    let w := ((r.delete id).run.run d).2.volume
    w.current = d.volume.current ∧ ∀ s, w.item? s = d.volume.item? s ∨
      ∃ q, d.volume.LooksIn r.directory q ∧ s = q ++ [documentName id] := by
  rw [(r.carries hid).delete, run_asking, FileM.removeFile]
  rcases FileM.writing_cases (·.removeFile (r.documentPath id)) (fun _ v => v) d with
    ⟨w, hw, -, hvolume⟩ | ⟨-, -, hvolume | ⟨-, hvolume⟩⟩
  · obtain ⟨s, i, hfind, hi, rfl⟩ := Volume.exists_of_removeFile hw
    obtain ⟨q, hq, rfl⟩ := Volume.exists_of_resolve_unfollowed (isSegment_documentName hid)
      (Volume.resolve_of_find hfind)
    rw [hvolume]
    refine ⟨rfl, fun s => ?_⟩
    by_cases hs : s = q ++ [documentName id]
    · exact .inr ⟨q, hq, hs⟩
    · exact .inl (hv.item?_remove_other (Volume.not_directory_of_find hfind hi) hs)
  · rw [hvolume]
    exact ⟨rfl, fun s => .inl rfl⟩
  · rw [hvolume]
    exact ⟨rfl, fun s => .inl rfl⟩

/-- The calls about an identifier touch nothing but its two places. -/
theorem confined (r : FileRepository) (hid : isValidId id = true) (hv : v.IsTree) :
    r.Confined id v where
  place n hn follow s i hresolve := by
    have hname : IsSegment n := by
      rcases List.mem_pair.1 hn with rfl | rfl
      · exact isSegment_documentName hid
      · exact isSegment_unfinishedName hid
    exact Volume.exists_of_resolve_behind hname hresolve
  answer w q q' hw hq hq' hitem hlink := by
    have hsame := Volume.map_find_eq
      (hq.map_resolve_eq hq' hv hw (isSegment_documentName hid) hitem hlink true)
    exact ⟨.findById (Volume.readFile_eq hsame), .contains (Volume.tryExists_eq hsame)⟩
  findById faults := by
    have hself : Alike v v (r.findById id) := .findById rfl
    obtain ⟨_, _, hrun, -⟩ := hself faults
    rw [hrun]
  contains faults := by
    have hself : Alike v v (r.contains id) := .contains rfl
    obtain ⟨_, _, hrun, -⟩ := hself faults
    rw [hrun]
  delete faults := delete_cases (d := ⟨v, faults⟩) hid hv
  save g faults hg := by
    subst hg
    exact (attempt_save hid ⟨v, faults⟩).item?_cases hid hv

/-- Two paths never lead to one place, unless a link at the end is followed. -/
def Apart (p p' : String) : Prop :=
  p ≠ p' ∧ ∀ (v : Volume) s i s' i', v.resolve false p = .ok (s, i) → v.resolve false p' = .ok (s', i') →
    s ≠ s'

theorem apart_of_ne {n n' : String} (directory : String) (hn : IsSegment n) (hn' : IsSegment n')
    (hne : n ≠ n') : Apart (Path.join directory n) (Path.join directory n') := by
  have hname : ∀ {m : String} {v : Volume} {s : List String} {i : Option Item}, IsSegment m →
      v.resolve false (Path.join directory m) = .ok (s, i) → s.getLast? = some m := by
    intro m v s i hm hresolve
    obtain ⟨q, -, rfl⟩ := Volume.exists_of_resolve_unfollowed hm hresolve
    exact List.getLast?_concat ..
  refine ⟨fun heq => hne ?_, fun v s i s' i' hs hs' heq => hne ?_⟩
  · have hfile := Path.fileName?_join directory hn
    rw [heq, Path.fileName?_join directory hn'] at hfile
    exact (Option.some.inj hfile).symm
  · have hlast := hname hn hs
    rw [heq, hname hn' hs'] at hlast
    exact (Option.some.inj hlast).symm

/-- **Identifiers neither escape nor collide.** The calls about an identifier refuse it without an operation
on files, or they touch only its two places in the directory of the repository. The documents of two
identifiers are different files, and so are their unfinished ones; no document is an unfinished file. The
identifier of a new graph is not refused. -/
theorem ids_confined (r : FileRepository) (id : String) :
    (isValidId id = false ∧ r.Refuses id ∨
      isValidId id = true ∧ r.Carries id ∧ ∀ v : Volume, v.IsTree → r.Confined id v) ∧
    (∀ id', isValidId id = true → isValidId id' = true →
      (id ≠ id' → Apart (r.documentPath id) (r.documentPath id') ∧
        Apart (r.unfinishedPath id) (r.unfinishedPath id')) ∧
      Apart (r.documentPath id) (r.unfinishedPath id')) ∧
    ∀ codebase t, isValidId (GraphMetadata.new codebase t).id = true := by
  refine ⟨?_, fun id' hid hid' => ⟨fun hne => ⟨?_, ?_⟩, ?_⟩, GraphMetadata.isValidId_identifier⟩
  · rcases hid : isValidId id with _ | _
    · exact .inl ⟨rfl, r.refuses hid⟩
    · exact .inr ⟨rfl, r.carries hid, fun v hv => r.confined hid hv⟩
  · exact apart_of_ne _ (isSegment_documentName hid) (isSegment_documentName hid')
      fun h => hne (documentName_inj h)
  · exact apart_of_ne _ (isSegment_unfinishedName hid) (isSegment_unfinishedName hid')
      fun h => hne (unfinishedName_inj h)
  · exact apart_of_ne _ (isSegment_documentName hid) (isSegment_unfinishedName hid')
      (unfinishedName_ne_documentName id' id).symm

/-- Identifiers that look like paths are refused, and those that look like names of files are kept apart. -/
theorem ids_confined_store : store.Refuses "../g" ∧ store.Confined "g" storeVolume ∧
    Apart (store.documentPath "g") (store.documentPath "g.json") ∧
    Apart (store.documentPath "g") (store.unfinishedPath "g.json.tmp") := by
  obtain ⟨-, hrefused⟩ := (ids_confined store "../g").1.resolve_right fun h => absurd h.1 (by decide)
  obtain ⟨-, -, hconfined⟩ := (ids_confined store "g").1.resolve_left fun h => absurd h.1 (by decide)
  have hapart := (ids_confined store "g").2.1
  exact ⟨hrefused, hconfined storeVolume unlinked_storeVolume.toIsTree,
    ((hapart "g.json" (by decide) (by decide)).1 (by decide)).1,
    (hapart "g.json.tmp" (by decide) (by decide)).2⟩

/-! ## A link under an unfinished name -/

/-- A repository in a directory where the unfinished name of `g` is one of a link out of it. -/
def linkedVolume : Volume :=
  ⟨[(["graphs"], .directory), (["graphs", "g.json.tmp"], .link "../outside")], []⟩

theorem isTree_linkedVolume : linkedVolume.IsTree := by
  refine .of_entries rfl fun e he => ?_
  simp only [linkedVolume, List.mem_cons, List.not_mem_nil, or_false] at he
  rcases he with rfl | rfl
  · exact ⟨[], "graphs", rfl, rfl⟩
  · exact ⟨["graphs"], "g.json.tmp", rfl, rfl⟩

/-- Under the unfinished name what the link leads to is found, out of the directory. -/
theorem resolve_linked (hcurrent : v.current = []) (hdir : v.item? ["graphs"] = some .directory)
    (hlink : v.item? ["graphs", "g.json.tmp"] = some (.link "../outside"))
    (houtside : ∀ target, v.item? ["outside"] ≠ some (.link target)) :
    v.resolve true (unfinishedPath ⟨"graphs"⟩ "g") = .ok (["outside"], v.item? ["outside"]) := by
  have hlinked := Volume.resolve_join_link (n := unfinishedName "g") hcurrent isPlain_graphs
    (by decide) hdir hlink
  have htarget : Path.split "../outside" = ["..", "outside"] := by decide
  have houtside' : Path.IsPlain "outside" := by decide
  refine hlinked.trans ?_
  rw [if_neg (by decide), htarget, Volume.walk_cons_up hdir]
  exact Volume.walk_singleton v.item?_nil houtside'.toIsName houtside true 39

/-- A graph `g` is saved to where the link leads. -/
theorem exists_save_linked (g : PropertyGraph) (hg : g.id = "g") :
    ∃ w, (FileRepository.save ⟨"graphs"⟩ g).run.run ⟨linkedVolume, []⟩ = (.ok (), ⟨w, []⟩) ∧
      w.item? ["outside"] = some (.file (document g)) := by
  have hlead : linkedVolume.LeadsTo "graphs" ["graphs"] := Volume.leadsTo_name rfl isPlain_graphs rfl
  obtain ⟨w, hw⟩ : ∃ w, w = linkedVolume.put ["outside"] (.file (document g)) := ⟨_, rfl⟩
  have hitem : ∀ s, w.item? s = if s = ["outside"] then some (.file (document g))
      else linkedVolume.item? s := by
    rw [hw]
    exact Volume.item?_put linkedVolume (by simp) _
  have hcurrent : w.current = [] := hw ▸ Volume.current_put ..
  have hwritten := resolve_linked hcurrent (hitem _) (hitem _) (by simp [hitem])
  have houtside : linkedVolume.item? ["outside"] = none := rfl
  have hnone : w.item? (["graphs"] ++ [documentName "g"]) = none := hitem _
  have hwrite : linkedVolume.writeFile (unfinishedPath ⟨"graphs"⟩ "g") (document g) = .ok w := by
    have hthere : w.fileExists (unfinishedPath ⟨"graphs"⟩ "g") = true := by
      rw [Volume.fileExists, Volume.metadata, Volume.find, hwritten, hitem, if_pos rfl]
      rfl
    have hresolve : linkedVolume.resolve true (unfinishedPath ⟨"graphs"⟩ "g") =
        .ok (["outside"], none) := resolve_linked rfl rfl rfl (by simp [houtside])
    rw [Volume.writeFile, hresolve]
    simp only [bind, Except.bind, ← hw, hthere]
    rfl
  have hlead' : w.LeadsTo "graphs" ["graphs"] := Volume.leadsTo_name hcurrent isPlain_graphs (hitem _)
  have hfind : w.find false (unfinishedPath ⟨"graphs"⟩ "g") =
      .ok (["graphs", "g.json.tmp"], .link "../outside") := by
    have hname : Path.IsPlain "g.json.tmp" := by decide
    obtain ⟨left, hleft⟩ := hlead'.looksIn.resolve_join hname.isSegment (by decide)
    have hfound : w.resolve false (unfinishedPath ⟨"graphs"⟩ "g") =
        .ok (["graphs", "g.json.tmp"], some (.link "../outside")) :=
      (hleft false).trans (Volume.walk_link_end hlead'.item? hname.toIsName (hitem _))
    rw [Volume.find, hfound]
    rfl
  have hrename : w.rename (unfinishedPath ⟨"graphs"⟩ "g") (documentPath ⟨"graphs"⟩ "g") =
      .ok ((w.remove ["graphs", "g.json.tmp"]).put ["graphs", "g.json"] (.link "../outside")) := by
    have hend : ∀ target, w.item? (["graphs"] ++ [documentName "g"]) ≠ some (.link target) := by
      rw [hnone]
      simp
    have htarget : w.resolve false (documentPath ⟨"graphs"⟩ "g") = .ok (["graphs", "g.json"], none) :=
      (hlead'.resolve_join (by decide) (by decide) hend false).trans
        (congrArg (fun i => Except.ok (["graphs", "g.json"], i)) hnone)
    rw [Volume.rename, hfind]
    simp only [bind, Except.bind, htarget]
    rfl
  rw [← hg] at hwrite hrename
  refine ⟨_, run_save (by rw [hg]; decide) hlead.makeDirs hwrite hrename, ?_⟩
  rw [Volume.item?_put _ (by simp), if_neg (by decide), Volume.item?_remove, if_neg (by decide), hitem,
    if_pos rfl]

/-- It is not so that saving changes the directory of the repository only: what a link leads to under the
unfinished name is written. -/
theorem save_follows_link : ¬ ∀ (r : FileRepository) (g : PropertyGraph) (v w : Volume)
    (q : List String), v.IsTree → v.LooksIn r.directory q →
    (r.save g).run.run ⟨v, []⟩ = (.ok (), ⟨w, []⟩) → ∀ s, w.item? s = v.item? s ∨
      s = q ++ [documentName g.id] ∨ s = q ++ [unfinishedName g.id] := by
  intro hclaim
  have hlead : linkedVolume.LeadsTo "graphs" ["graphs"] := Volume.leadsTo_name rfl isPlain_graphs rfl
  obtain ⟨w, hsave, hitem⟩ := exists_save_linked (notedGraph "owner") rfl
  have hnone : linkedVolume.item? ["outside"] = none := rfl
  rcases hclaim _ _ _ _ _ isTree_linkedVolume hlead.looksIn hsave ["outside"] with h | h | h
  · rw [hitem, hnone] at h
    cases h
  · exact absurd (congrArg List.length h) (by decide)
  · exact absurd (congrArg List.length h) (by decide)

end FileRepository

end CodeGraph
