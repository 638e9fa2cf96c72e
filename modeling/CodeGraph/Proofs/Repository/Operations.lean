import CodeGraph.Proofs.Repository.Metadata
import CodeGraph.Proofs.Repository.Order
import CodeGraph.Proofs.Repository.Persistence

/-!
# Operations of a repository of files

What each operation of a repository answers when no operation on a file is made to fail, and that only
saving and deleting change the volume. A scan opens every file whose name ends in `.json`: it gives the
metadata of those that have any (`run_scan`), and it fails at the first that cannot be opened
(`exists_run_scan_error`). A listing and a search are answered from the scan (`run_list`,
`run_findByCodebase`).
-/

namespace CodeGraph.FileRepository

open Json
open CodeGraph.Path (IsPlain)
open Volume (IsSegment)

variable {r : FileRepository} {v w : Volume} {d d' : Drive} {id name : String} {names : List String}
  {l : List GraphMetadata} {content : ByteArray}

/-! ## One document -/

/-- Where the document of an identifier is. -/
abbrev documentPath (r : FileRepository) (id : String) : String :=
  Path.join r.directory (documentName id)

theorem run_lift_reading {α : Type} (op : Volume → Except OsError α) (v : Volume) :
    (ExceptT.lift (FileM.reading op) : RepositoryM (Except OsError α)).run.run ⟨v, []⟩ =
      (.ok (op v), ⟨v, []⟩) := rfl

theorem run_lift_writing (write : Volume → Except OsError Volume) (torn : Nat → Volume → Volume)
    (v : Volume) :
    (ExceptT.lift (FileM.writing write torn) : RepositoryM (Except OsError Unit)).run.run ⟨v, []⟩ =
      match write v with
      | .ok w => (.ok (.ok ()), ⟨w, []⟩)
      | .error e => (.ok (.error e), ⟨v, []⟩) := by
  have hlift : (ExceptT.lift (FileM.writing write torn) : RepositoryM (Except OsError Unit)).run.run
      ⟨v, []⟩ = (.ok ((FileM.writing write torn).run ⟨v, []⟩).1,
        ((FileM.writing write torn).run ⟨v, []⟩).2) := rfl
  rw [hlift, FileM.writing_faultless rfl]
  rcases write v with e | w <;> rfl

theorem run_findById_ok (hid : isValidId id = true)
    (hread : v.readFile (r.documentPath id) = .ok content) :
    (r.findById id).run.run ⟨v, []⟩ =
      (((decodeBytes PropertyGraph.read content).map some).mapError .json, ⟨v, []⟩) := by
  rw [findById, run_bind_ok (run_checkId hid _)]
  refine (run_bind_ok (run_lift_reading _ v)).trans ?_
  rw [hread]
  dsimp only
  rcases decodeBytes PropertyGraph.read content with e | g
  · rfl
  · rfl

theorem run_findById_missing (hid : isValidId id = true)
    (hread : v.readFile (r.documentPath id) = .error .notFound) :
    (r.findById id).run.run ⟨v, []⟩ = (.ok none, ⟨v, []⟩) := by
  rw [findById, run_bind_ok (run_checkId hid _)]
  refine (run_bind_ok (run_lift_reading _ v)).trans ?_
  rw [hread]
  rfl

theorem run_contains (hid : isValidId id = true) :
    (r.contains id).run.run ⟨v, []⟩ =
      ((v.tryExists (r.documentPath id)).mapError (.io (r.documentPath id)), ⟨v, []⟩) := by
  rw [contains, run_bind_ok (run_checkId hid _), run_file]
  rfl

theorem run_delete (hid : isValidId id = true) (h : v.removeFile (r.documentPath id) = .ok w) :
    (r.delete id).run.run ⟨v, []⟩ = (.ok true, ⟨w, []⟩) := by
  have hremove := run_lift_writing (·.removeFile (r.documentPath id)) (fun _ v => v) v
  simp only [h] at hremove
  rw [delete, run_bind_ok (run_checkId hid _)]
  exact run_bind_ok hremove

theorem run_delete_missing (hid : isValidId id = true)
    (h : v.removeFile (r.documentPath id) = .error .notFound) :
    (r.delete id).run.run ⟨v, []⟩ = (.ok false, ⟨v, []⟩) := by
  have hremove := run_lift_writing (·.removeFile (r.documentPath id)) (fun _ v => v) v
  simp only [h] at hremove
  rw [delete, run_bind_ok (run_checkId hid _)]
  exact run_bind_ok hremove

/-! ## Scanning -/

/-- Whether a scan opens what has a name in the directory. -/
def Opens (r : FileRepository) (name : String) : Prop :=
  Path.fileExtension? (Path.join r.directory name) = some "json"

instance (r : FileRepository) (name : String) : Decidable (r.Opens name) :=
  inferInstanceAs (Decidable (_ = _))

/-- A scan opens the documents. -/
theorem opens_documentName (hid : isValidId id = true) : r.Opens (documentName id) := by
  rw [Opens, Path.fileExtension?, Path.fileName?_join r.directory (isSegment_documentName hid),
    Option.bind_some, splitName_documentName hid]

/-- Every file that a scan opens can be read. -/
def Readable (r : FileRepository) (v : Volume) (names : List String) : Prop :=
  ∀ n ∈ names, r.Opens n → ∃ content, v.readFile (Path.join r.directory n) = .ok content

/-- The metadata that a scan finds under a name. -/
def metadataAt? (r : FileRepository) (v : Volume) (name : String) : Option GraphMetadata :=
  if r.Opens name then
    (v.readFile (Path.join r.directory name)).toOption.bind fun content =>
      (decodeBytes metadataRecord.read content).toOption
  else none

theorem run_file_readFile (path : String) (v : Volume) :
    (file path (FileM.readFile path)).run.run ⟨v, []⟩ =
      ((v.readFile path).mapError (.io path), ⟨v, []⟩) := by
  rw [run_file]
  rfl

theorem scanNames_cons_of_not_opens (h : ¬ r.Opens name) :
    scanNames r (name :: names) = scanNames r names := by
  rw [scanNames]
  exact if_neg h

theorem scanNames_cons_of_opens (h : r.Opens name) :
    scanNames r (name :: names) =
      file (Path.join r.directory name) (FileM.readFile (Path.join r.directory name)) >>= fun bytes =>
        match decodeBytes metadataRecord.read bytes with
        | .ok m => do return m :: (← scanNames r names)
        | .error _ => scanNames r names := by
  rw [scanNames]
  exact if_pos h

/-- What a scan does with a file that can be opened. -/
theorem run_scanNames_cons (h : r.Opens name)
    (hread : v.readFile (Path.join r.directory name) = .ok content) :
    (scanNames r (name :: names)).run.run ⟨v, []⟩ =
      match decodeBytes metadataRecord.read content with
      | .ok m => (do return m :: (← scanNames r names) : RepositoryM _).run.run ⟨v, []⟩
      | .error _ => (scanNames r names).run.run ⟨v, []⟩ := by
  have hfile := run_file_readFile (Path.join r.directory name) v
  rw [hread] at hfile
  rw [scanNames_cons_of_opens h, run_bind_ok hfile]
  rcases decodeBytes metadataRecord.read content with e | m
  · rfl
  · rfl

theorem run_scanNames (h : r.Readable v names) :
    (scanNames r names).run.run ⟨v, []⟩ = (.ok (names.filterMap (r.metadataAt? v)), ⟨v, []⟩) := by
  induction names with
  | nil => rfl
  | cons n names ih =>
    obtain ⟨hn, hnames⟩ := List.forall_mem_cons.1 h
    by_cases hopens : r.Opens n
    · obtain ⟨content, hread⟩ := hn hopens
      rw [run_scanNames_cons hopens hread]
      rcases hdecode : decodeBytes metadataRecord.read content with e | m
      · have hnone : r.metadataAt? v n = none := by
          simp [metadataAt?, hopens, hread, hdecode, Except.toOption]
        rw [List.filterMap_cons_none hnone]
        exact ih hnames
      · have hsome : r.metadataAt? v n = some m := by
          simp [metadataAt?, hopens, hread, hdecode, Except.toOption]
        rw [List.filterMap_cons_some hsome]
        exact run_bind_ok (ih hnames)
    · have hnone : r.metadataAt? v n = none := if_neg hopens
      rw [scanNames_cons_of_not_opens hopens, List.filterMap_cons_none hnone]
      exact ih hnames

/-- A scan fails at the first file that it opens and cannot read. -/
theorem exists_run_scanNames_error (h : ¬ r.Readable v names) :
    ∃ n ∈ names, ∃ e, r.Opens n ∧ v.readFile (Path.join r.directory n) = .error e ∧
      (scanNames r names).run.run ⟨v, []⟩ = (.error (.io (Path.join r.directory n) e), ⟨v, []⟩) := by
  induction names with
  | nil => exact absurd (fun n hn => nomatch hn) h
  | cons n names ih =>
    by_cases hread : r.Opens n → ∃ content, v.readFile (Path.join r.directory n) = .ok content
    · have hrest : ¬ r.Readable v names := fun hnames => h (List.forall_mem_cons.2 ⟨hread, hnames⟩)
      obtain ⟨m, hm, e, hopens, he, hscan⟩ := ih hrest
      refine ⟨m, List.mem_cons_of_mem _ hm, e, hopens, he, ?_⟩
      by_cases hn : r.Opens n
      · obtain ⟨content, hcontent⟩ := hread hn
        rw [run_scanNames_cons hn hcontent]
        rcases decodeBytes metadataRecord.read content with _ | x
        · exact hscan
        · exact run_bind_error hscan
      · rw [scanNames_cons_of_not_opens hn]
        exact hscan
    · obtain ⟨hn, hunread⟩ := Classical.not_imp.1 hread
      rcases he : v.readFile (Path.join r.directory n) with e | content
      · have hfile := run_file_readFile (Path.join r.directory n) v
        rw [he] at hfile
        refine ⟨n, List.mem_cons_self .., e, hn, he, ?_⟩
        rw [scanNames_cons_of_opens hn]
        exact run_bind_error hfile
      · exact absurd ⟨content, he⟩ hunread

theorem run_scan (hdir : v.readDir r.directory = .ok names) (h : r.Readable v names) :
    (scan r).run.run ⟨v, []⟩ = (.ok (names.filterMap (r.metadataAt? v)), ⟨v, []⟩) := by
  refine (run_bind_ok (run_lift_reading _ v)).trans ?_
  rw [hdir]
  exact run_scanNames h

theorem exists_run_scan_error (hdir : v.readDir r.directory = .ok names)
    (h : ¬ r.Readable v names) :
    ∃ n ∈ names, ∃ e, r.Opens n ∧ v.readFile (Path.join r.directory n) = .error e ∧
      (scan r).run.run ⟨v, []⟩ = (.error (.io (Path.join r.directory n) e), ⟨v, []⟩) := by
  obtain ⟨n, hn, e, hopens, he, hscan⟩ := exists_run_scanNames_error h
  refine ⟨n, hn, e, hopens, he, (run_bind_ok (run_lift_reading _ v)).trans ?_⟩
  rw [hdir]
  exact hscan

theorem run_scan_missing (hdir : v.readDir r.directory = .error .notFound) :
    (scan r).run.run ⟨v, []⟩ = (.ok [], ⟨v, []⟩) := by
  refine (run_bind_ok (run_lift_reading _ v)).trans ?_
  rw [hdir]
  rfl

theorem run_list (h : (scan r).run.run d = (.ok l, d')) :
    (r.list).run.run d = (.ok (GraphMetadata.oldestFirst l), d') :=
  run_bind_ok h

theorem run_list_error {e : RepositoryError} (h : (scan r).run.run d = (.error e, d')) :
    (r.list).run.run d = (.error e, d') :=
  run_bind_error h

theorem run_findByCodebase (codebase : String) (h : (scan r).run.run d = (.ok l, d')) :
    (r.findByCodebase codebase).run.run d =
      match GraphMetadata.latest? (l.filter fun m => m.codebase == codebase) with
      | some m => (r.findById m.id).run.run d'
      | none => (.ok none, d') := by
  rw [findByCodebase, run_bind_ok h]
  rcases GraphMetadata.latest? (l.filter fun m => m.codebase == codebase) with _ | m
  · rfl
  · rfl

/-- A search finds what the identifier of the last metadata of the codebase in the listing finds. -/
theorem run_findByCodebase_last (codebase : String) (h : (scan r).run.run d = (.ok l, d')) :
    (r.findByCodebase codebase).run.run d =
      match ((GraphMetadata.oldestFirst l).filter fun m => m.codebase == codebase).getLast? with
      | some m => (r.findById m.id).run.run d'
      | none => (.ok none, d') := by
  have hid := GraphMetadata.map_id_latest?_filter l fun m => m.codebase == codebase
  rw [run_findByCodebase codebase h]
  generalize GraphMetadata.latest? (List.filter _ _) = latest at hid ⊢
  generalize List.getLast? (List.filter _ _) = last at hid ⊢
  rcases latest with _ | m
  · rw [Option.map_eq_none_iff.1 hid.symm]
  · obtain ⟨x, rfl, hx⟩ := Option.map_eq_some_iff.1 hid.symm
    exact congrArg (fun i => (r.findById i).run.run d') hx.symm

theorem run_findByCodebase_error (codebase : String) {e : RepositoryError}
    (h : (scan r).run.run d = (.error e, d')) :
    (r.findByCodebase codebase).run.run d = (.error e, d') :=
  run_bind_error h

end CodeGraph.FileRepository
