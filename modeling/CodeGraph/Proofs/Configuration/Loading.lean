import CodeGraph.Configuration.Loader
import CodeGraph.Proofs.Volume.Programs

/-!
# Runs of a loader

What a loader gives is told by what the two files hold (`run_load`). A loader that has read the file
for all workspaces takes what it has read for what the file holds (`known`), and that is all that an
earlier request, also one that failed, leaves behind: as long as the file is read as it was, loaders
that have read it and loaders that have not answer alike (`Knows.answers_eq`).
-/

namespace CodeGraph

open CodeGraph.Configuration (Overrides)

namespace ConfigurationLoader

/-! ## What files hold -/

/-- The table of a file. -/
def tableOf (v : Volume) (path : String) : Except ConfigurationError Toml.Table :=
  match v.readText path with
  | .error e => .error (.unreadable path e)
  | .ok s =>
    match Toml.ofText? s with
    | some t => .ok t
    | none => .error (.malformed path)

/-- The table of a file, if the file is there. -/
def tableIn (v : Volume) (path : String) : Except ConfigurationError (Option Toml.Table) :=
  if (v.metadata path).isOk then (tableOf v path).map some else .ok none

/-- The table of the file for all workspaces, if there is one. -/
def tableAbove (l : ConfigurationLoader) (v : Volume) :
    Except ConfigurationError (Option Toml.Table) :=
  match l.globalPath? with
  | none => .ok none
  | some path => tableIn v path

/-- What a loader takes for the table of the file for all workspaces. -/
def known (l : ConfigurationLoader) (v : Volume) :
    Except ConfigurationError (Option Toml.Table) :=
  match l.table with
  | some t => .ok (some t)
  | none => l.tableAbove v

/-- The loader once it has looked for the file for all workspaces. -/
def looked (l : ConfigurationLoader) (v : Volume) : ConfigurationLoader :=
  { l with table := (l.known v).toOption.join }

variable {l l' : ConfigurationLoader} {v w : Volume} {workspace path : String} {o : Overrides}

theorem run_files {α : Type} (l : ConfigurationLoader) (v : Volume)
    (op : Volume → Except OsError α) :
    (files (FileM.reading op)).run.run ⟨l, ⟨v, []⟩⟩ = (.ok (op v), ⟨l, ⟨v, []⟩⟩) := rfl

theorem run_isThere (l : ConfigurationLoader) (v : Volume) (path : String) :
    (isThere path).run.run ⟨l, ⟨v, []⟩⟩ = (.ok (v.metadata path).isOk, ⟨l, ⟨v, []⟩⟩) := rfl

theorem run_readTable (l : ConfigurationLoader) (v : Volume) (path : String) :
    (readTable path).run.run ⟨l, ⟨v, []⟩⟩ = (tableOf v path, ⟨l, ⟨v, []⟩⟩) := by
  rw [readTable, FileM.readText, run_bind_ok (run_files l v _), tableOf]
  rcases v.readText path with e | s
  · rfl
  · simp only
    rcases Toml.ofText? s with _ | t <;> rfl

theorem run_globalTable (l : ConfigurationLoader) (v : Volume) :
    globalTable.run.run ⟨l, ⟨v, []⟩⟩ = (l.known v, ⟨l.looked v, ⟨v, []⟩⟩) := by
  obtain ⟨directory, table⟩ := l
  rw [globalTable, run_bind_ok (run_get _), looked, known]
  rcases table with _ | t
  · rcases directory with _ | directory
    · rfl
    · have hread := run_readTable ⟨some directory, none⟩ v (Path.join directory fileName)
      simp only [globalPath?, Option.map_some, tableAbove, tableIn]
      rw [run_bind_ok (run_isThere ..)]
      cases (v.metadata (Path.join directory fileName)).isOk with
      | false => rfl
      | true =>
        simp only [Bool.not_true, Bool.false_eq_true, if_false, if_true]
        generalize tableOf v (Path.join directory fileName) = result at hread ⊢
        rcases result with e | t
        · rw [run_bind_error hread]
          rfl
        · rw [run_bind_ok hread]
          rfl
  · rfl

theorem run_localTable (l : ConfigurationLoader) (v : Volume) (workspace : String) :
    (localTable workspace).run.run ⟨l, ⟨v, []⟩⟩ =
      (tableIn v (localPath workspace), ⟨l, ⟨v, []⟩⟩) := by
  rw [localTable, tableIn, run_bind_ok (run_isThere ..)]
  cases (v.metadata (localPath workspace)).isOk with
  | false => rfl
  | true => exact run_map_answer (run_readTable l v (localPath workspace)) some

/-! ## Loading -/

/-- What a table describes, with overrides over it. -/
def describe (t : Toml.Table) (o : Overrides) : Except ConfigurationError Configuration := do
  finish o (← interpret t)

theorem run_lift {α : Type} (x : Except ConfigurationError α) (s : LoaderState) :
    (liftM x : LoaderM α).run.run s = (x, s) := by
  cases x <;> rfl

theorem run_describe (t : Toml.Table) (o : Overrides) (s : LoaderState) :
    (do finish o (← interpret t) : LoaderM Configuration).run.run s = (describe t o, s) :=
  run_bind_answer (run_lift (interpret t) s) fun c => run_lift (finish o c) s

/-- What loading gives for what the two files hold. -/
def loadOf (above here : Except ConfigurationError (Option Toml.Table)) (o : Overrides) :
    Except ConfigurationError Configuration := do
  let above ← above
  let here ← here
  describe (Toml.merge (Toml.merge [] (above.getD [])) (here.getD [])) o

theorem run_load (l : ConfigurationLoader) (v : Volume) (workspace : String) (o : Overrides) :
    (load workspace o).run.run ⟨l, ⟨v, []⟩⟩ =
      (loadOf (l.known v) (tableIn v (localPath workspace)) o, ⟨l.looked v, ⟨v, []⟩⟩) := by
  refine run_bind_answer (run_globalTable l v) fun above => ?_
  refine run_bind_answer (run_localTable (l.looked v) v workspace) fun here => ?_
  exact run_describe ..

theorem run_loadFile (l : ConfigurationLoader) (v : Volume) (path : String) (o : Overrides) :
    (loadFile path o).run.run ⟨l, ⟨v, []⟩⟩ =
      (tableOf v path >>= fun t => describe t o, ⟨l, ⟨v, []⟩⟩) :=
  run_bind_answer (run_readTable l v path) fun t => run_describe t o _

/-! ## One request after the other -/

/-- What a loader may be asked for. -/
inductive Request where
  | load (workspace : String) (o : Overrides)
  | loadGlobal
  | loadLocal (workspace : String)

def perform : Request → LoaderM (Option Configuration)
  | .load workspace o => do return some (← load workspace o)
  | .loadGlobal => loadGlobal
  | .loadLocal workspace => loadLocal workspace

/-- What a loader answers in turn, each time with the files of a volume. -/
def answers (l : ConfigurationLoader) :
    List (Volume × Request) → List (Except ConfigurationError (Option Configuration))
  | [] => []
  | (v, q) :: later =>
    let r := (perform q).run.run ⟨l, ⟨v, []⟩⟩
    r.1 :: answers r.2.loader later

/-- What the table of a single file describes. -/
def single : Except ConfigurationError (Option Toml.Table) →
    Except ConfigurationError (Option Configuration)
  | .ok (some t) => (interpret t).map some
  | .ok none => .ok none
  | .error e => .error e

/-- What a loader answers, given what it takes for the table of the file for all workspaces. -/
def respond (above : Except ConfigurationError (Option Toml.Table)) (v : Volume) :
    Request → Except ConfigurationError (Option Configuration)
  | .load workspace o => (loadOf above (tableIn v (localPath workspace)) o).map some
  | .loadGlobal => single above
  | .loadLocal workspace => single (tableIn v (localPath workspace))

/-- The loader once it has answered. -/
def next (l : ConfigurationLoader) (v : Volume) : Request → ConfigurationLoader
  | .loadLocal _ => l
  | _ => l.looked v

theorem run_single {x : LoaderM (Option Toml.Table)} {s s' : LoaderState}
    {table : Except ConfigurationError (Option Toml.Table)} (h : x.run.run s = (table, s')) :
    (do match ← x with
      | some t => return some (← interpret t)
      | none => return none : LoaderM (Option Configuration)).run.run s = (single table, s') := by
  rcases table with e | ⟨_ | t⟩
  · rw [run_bind_error h]
    rfl
  · rw [run_bind_ok h]
    rfl
  · rw [run_bind_ok h, single]
    exact run_map_answer (run_lift (interpret t) s') some

theorem run_perform (l : ConfigurationLoader) (v : Volume) (q : Request) :
    (perform q).run.run ⟨l, ⟨v, []⟩⟩ = (respond (l.known v) v q, ⟨l.next v q, ⟨v, []⟩⟩) := by
  cases q with
  | load workspace o => exact run_map_answer (run_load l v workspace o) some
  | loadGlobal => exact run_single (run_globalTable l v)
  | loadLocal workspace => exact run_single (run_localTable l v workspace)

/-- A loader that has read the file for all workspaces as it is, or has not read it. -/
structure Knows (l : ConfigurationLoader) (directory : Option String)
    (above : Except ConfigurationError (Option Toml.Table)) : Prop where
  directory_eq : l.directory = directory
  table_eq : l.table = none ∨ l.table = above.toOption.join

/-- Whether the file for all workspaces is read as before. -/
def tableUnder (directory : Option String) (v : Volume) :
    Except ConfigurationError (Option Toml.Table) :=
  tableAbove ⟨directory, none⟩ v

namespace Knows

variable {l l' : ConfigurationLoader} {v : Volume} {directory : Option String}
  {above : Except ConfigurationError (Option Toml.Table)}

theorem known (h : l.Knows directory above) (hv : tableUnder directory v = above) :
    l.known v = above := by
  obtain ⟨own, table⟩ := l
  obtain ⟨rfl, htable⟩ := h
  rcases table with _ | t
  · exact hv
  · rcases htable with hnone | hsome
    · cases hnone
    · rcases above with e | ⟨_ | t'⟩
      · cases hsome
      · cases hsome
      · exact congrArg (fun t => Except.ok (some t)) (Option.some.inj hsome)

theorem next (h : l.Knows directory above) (hv : tableUnder directory v = above) (q : Request) :
    (l.next v q).Knows directory above := by
  have hlooked : (l.looked v).Knows directory above :=
    ⟨h.directory_eq, .inr (by rw [looked, h.known hv])⟩
  cases q with
  | loadLocal => exact h
  | _ => exact hlooked

/-- Loaders that know the same answer alike as long as the file for all workspaces is read as it
was. -/
theorem answers_eq (h : l.Knows directory above) (h' : l'.Knows directory above)
    {later : List (Volume × Request)}
    (hlater : ∀ x ∈ later, tableUnder directory x.1 = above) :
    answers l later = answers l' later := by
  induction later generalizing l l' with
  | nil => rfl
  | cons x later ih =>
    obtain ⟨v, q⟩ := x
    obtain ⟨hv, hlater⟩ := List.forall_mem_cons.1 hlater
    rw [answers, answers, run_perform, run_perform, h.known hv, h'.known hv]
    exact congrArg _ (ih (h.next hv q) (h'.next hv q) hlater)

end Knows

end ConfigurationLoader

end CodeGraph
