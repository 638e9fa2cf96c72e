import CodeGraph.Proofs.Repository.Operations

/-!
# Volumes on which a repository answers alike

A repository that only reads answers from what its paths lead to. On two volumes where these are alike it
answers alike, whatever faults are met: for one identifier if what is read of its document is the same
(`Alike.findById`, `Alike.contains`), and for all of the directory if its listings and what is read of the
files that a scan opens are the same (`Alike.scan`, `Alike.list`, `Alike.findByCodebase`).
-/

namespace CodeGraph.FileRepository

open Json

variable {α β : Type} {r : FileRepository} {v w : Volume} {id : String} {names : List String}

/-- The names that a scan opens, none if there is no directory. -/
def opened (r : FileRepository) (v : Volume) : Except OsError (List String) :=
  match v.readDir r.directory with
  | .ok names => .ok (names.filter fun n => r.Opens n)
  | .error .notFound => .ok []
  | .error e => .error e

/-- What a scan does with the listing of the directory. -/
def scanned (r : FileRepository) : Except OsError (List String) → RepositoryM (List GraphMetadata)
  | .ok names => scanNames r names
  | .error .notFound => return []
  | .error e => throw (.io r.directory e)

theorem scan_eq (r : FileRepository) :
    scan r = ExceptT.lift (FileM.readDir r.directory) >>= scanned r := by
  refine congrArg (ExceptT.lift (FileM.readDir r.directory) >>= ·) (funext fun a => ?_)
  rcases a with e | names
  · cases e <;> rfl
  · rfl

theorem scanNames_filter (names : List String) :
    scanNames r (names.filter fun n => r.Opens n) = scanNames r names := by
  induction names with
  | nil => rfl
  | cons n names ih =>
    by_cases hopens : r.Opens n
    · rw [List.filter_cons_of_pos (by simpa using hopens), scanNames_cons_of_opens hopens,
        scanNames_cons_of_opens hopens, ih]
    · rw [List.filter_cons_of_neg (by simpa using hopens), scanNames_cons_of_not_opens hopens, ih]

theorem scanned_readDir (r : FileRepository) (v : Volume) :
    scanned r (v.readDir r.directory) = scanned r (r.opened v) := by
  rw [opened]
  rcases v.readDir r.directory with e | names
  · cases e <;> rfl
  · exact (scanNames_filter names).symm

theorem run_reading_bind (op : Volume → Except OsError β) (next : Except OsError β → RepositoryM α)
    (d : Drive) : (ExceptT.lift (FileM.reading op) >>= next).run.run d =
      (next (match d.faults.head?.join with
        | some f => .error f.error
        | none => op d.volume)).run.run { d with faults := d.faults.tail } := by
  have hlift : (ExceptT.lift (FileM.reading op) : RepositoryM (Except OsError β)).run.run d =
      (.ok ((FileM.reading op).run d).1, ((FileM.reading op).run d).2) := rfl
  exact (run_bind_ok hlift).trans
    (congrArg (fun p => (next p.1).run.run p.2) (FileM.run_reading op))

/-- Where nothing is to be opened nothing is found. -/
theorem scan_of_opened_nil {l : List GraphMetadata} {d d' : Drive} (h : r.opened d.volume = .ok [])
    (hrun : (scan r).run.run d = (.ok l, d')) : l = [] := by
  rw [scan_eq, FileM.readDir, run_reading_bind] at hrun
  rcases hfault : d.faults.head?.join with _ | ⟨e, written⟩ <;> rw [hfault] at hrun
  · dsimp only at hrun
    rw [scanned_readDir, h] at hrun
    exact (Except.ok.inj (congrArg Prod.fst hrun)).symm
  · cases e
    case notFound => exact (Except.ok.inj (congrArg Prod.fst hrun)).symm
    all_goals cases hrun

/-- A program answers the same on two volumes and leaves both as they are, whatever faults are met. -/
def Alike (v w : Volume) (program : RepositoryM α) : Prop :=
  ∀ faults, ∃ answer rest, program.run.run ⟨v, faults⟩ = (answer, ⟨v, rest⟩) ∧
    program.run.run ⟨w, faults⟩ = (answer, ⟨w, rest⟩)

namespace Alike

variable {op : Volume → Except OsError β} {next : Except OsError β → RepositoryM α}

theorem pure (a : α) : Alike v w (Pure.pure a : RepositoryM α) := fun faults => ⟨_, faults, rfl, rfl⟩

theorem throw (e : RepositoryError) : Alike v w (throw e : RepositoryM α) := fun faults =>
  ⟨_, faults, rfl, rfl⟩

/-- What follows has to be alike for the answers that there are. -/
theorem bind_of_run {program : RepositoryM β} {next : β → RepositoryM α} (h : Alike v w program)
    (hnext : ∀ b faults d, program.run.run ⟨v, faults⟩ = (.ok b, d) → Alike v w (next b)) :
    Alike v w (program >>= next) := by
  intro faults
  obtain ⟨answer, rest, hv, hw⟩ := h faults
  rcases answer with e | b
  · exact ⟨.error e, rest, run_bind_error hv, run_bind_error hw⟩
  · obtain ⟨answer, rest', hv', hw'⟩ := hnext b faults _ hv rest
    exact ⟨answer, rest', (run_bind_ok hv).trans hv', (run_bind_ok hw).trans hw'⟩

theorem bind {program : RepositoryM β} {next : β → RepositoryM α} (h : Alike v w program)
    (hnext : ∀ b, Alike v w (next b)) : Alike v w (program >>= next) :=
  h.bind_of_run fun b _ _ _ => hnext b

/-- What follows what is read is the same program on both volumes. -/
theorem reading (hop : next (op v) = next (op w)) (hread : Alike v w (next (op v)))
    (hfault : ∀ e, Alike v w (next (.error e))) :
    Alike v w (ExceptT.lift (FileM.reading op) >>= next) := by
  intro faults
  rw [run_reading_bind, run_reading_bind]
  dsimp only
  rcases faults.head?.join with _ | f
  · obtain ⟨answer, rest, hv, hw⟩ := hread faults.tail
    exact ⟨answer, rest, hv, hop ▸ hw⟩
  · exact hfault f.error faults.tail

/-- What is read the same is followed by the same. -/
theorem reading_eq (hop : op v = op w) (hnext : ∀ a, Alike v w (next a)) :
    Alike v w (ExceptT.lift (FileM.reading op) >>= next) :=
  reading (congrArg next hop) (hnext _) fun e => hnext (.error e)

theorem file (path : String) (hop : op v = op w) : Alike v w (file path (FileM.reading op)) := by
  refine reading_eq hop fun a => ?_
  rcases a with e | b
  · exact throw _
  · exact pure b

theorem checkId (id : String) : Alike v w (checkId id) := by
  rw [FileRepository.checkId]
  split
  · exact throw _
  · exact pure _

/-! ## One identifier -/

theorem findById (h : v.readFile (r.documentPath id) = w.readFile (r.documentPath id)) :
    Alike v w (r.findById id) := by
  refine (checkId id).bind fun _ => reading_eq h fun a => ?_
  rcases a with e | content
  · cases e
    case notFound => exact pure none
    all_goals exact throw _
  · rcases hdecode : decodeBytes PropertyGraph.read content with e | g
    · simp only [hdecode]
      exact throw _
    · simp only [hdecode]
      exact pure _

theorem contains (h : v.tryExists (r.documentPath id) = w.tryExists (r.documentPath id)) :
    Alike v w (r.contains id) :=
  (checkId id).bind fun _ => file _ h

/-! ## The directory -/

theorem scanned_error (e : OsError) : Alike v w (scanned r (.error e)) := by
  cases e
  case notFound => exact pure []
  all_goals exact throw _

theorem scanNames (h : ∀ n ∈ names, r.Opens n →
    v.readFile (Path.join r.directory n) = w.readFile (Path.join r.directory n)) :
    Alike v w (scanNames r names) := by
  induction names with
  | nil => exact pure []
  | cons n names ih =>
    have ih := ih fun m hm => h m (List.mem_cons_of_mem _ hm)
    by_cases hopens : r.Opens n
    · rw [scanNames_cons_of_opens hopens]
      refine (file _ (h n (List.mem_cons_self ..) hopens)).bind fun content => ?_
      rcases decodeBytes metadataRecord.read content with e | m
      · exact ih
      · exact ih.bind fun l => pure _
    · rw [scanNames_cons_of_not_opens hopens]
      exact ih

theorem scan (hopened : r.opened v = r.opened w) (hread : ∀ names, r.opened v = .ok names →
    ∀ n ∈ names, v.readFile (Path.join r.directory n) = w.readFile (Path.join r.directory n)) :
    Alike v w (scan r) := by
  rw [scan_eq]
  refine reading ?_ ?_ fun e => scanned_error e
  · rw [scanned_readDir, scanned_readDir, hopened]
  · rw [scanned_readDir]
    rcases hnames : r.opened v with e | names
    · exact scanned_error e
    · exact scanNames fun n hn _ => hread names hnames n hn

theorem list (h : Alike v w (FileRepository.scan r)) : Alike v w r.list :=
  h.bind fun _ => pure _

theorem findByCodebase (hscan : Alike v w (FileRepository.scan r))
    (hfind : r.opened v = .ok [] ∨ ∀ id, Alike v w (r.findById id)) (codebase : String) :
    Alike v w (r.findByCodebase codebase) := by
  refine hscan.bind_of_run fun l faults d hrun => ?_
  rcases hfind with hopened | hfind
  · obtain rfl := scan_of_opened_nil hopened hrun
    exact pure none
  · rcases GraphMetadata.latest? (l.filter fun m => m.codebase == codebase) with _ | m
    · exact pure none
    · exact hfind m.id

end Alike

end CodeGraph.FileRepository
