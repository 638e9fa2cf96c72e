import CodeGraph.Proofs.Cache.Shelves
import CodeGraph.Proofs.Volume.Programs

/-!
# Programs of the disk layer

How the disk layer carries out operations on files (`DiskM.run_files`, `DiskM.run_file`), and where it
puts the files of an entry (`run_entryPathM`).

An operation ends with an answer or with an error, and `Ends` says which of the states and answers or
errors there may be, given what the state is like at the start. The rules follow the ways in which
operations are put together; those for operations on files come in two forms, for faults of any kind
(`Ends.files`) and for faults that tell the truth (`Truthful`), which never say that a file is missing
that is there.
-/

namespace CodeGraph.Cache

namespace DiskM

variable {α : Type}

theorem run_files (op : FileM α) (s : DiskState) :
    (files op).run.run s =
      (.ok (op.run s.drive).1, { s with drive := (op.run s.drive).2 }) := rfl

theorem run_file (path : String) (op : FileM (Except OsError α)) (s : DiskState) :
    (file path op).run.run s =
      ((op.run s.drive).1.mapError (.io path), { s with drive := (op.run s.drive).2 }) := by
  rw [file, run_bind, run_files]
  rcases op.run s.drive with ⟨_ | _, d⟩ <;> rfl

theorem run_files_reading {s : DiskState} (h : s.drive.faults = [])
    (op : Volume → Except OsError α) :
    (files (FileM.reading op)).run.run s = (.ok (op s.drive.volume), s) := by
  rw [run_files, FileM.reading_faultless h]

theorem run_file_reading {s : DiskState} (h : s.drive.faults = []) (path : String)
    {op : Volume → Except OsError α} {a : α} (hop : op s.drive.volume = .ok a) :
    (file path (FileM.reading op)).run.run s = (.ok a, s) := by
  rw [file, run_bind_ok (run_files_reading h op), hop]
  rfl

theorem run_modifyIndex (f : DiskIndex → DiskIndex) (s : DiskState) :
    (modifyIndex f).run.run s =
      (.ok ⟨⟩, { s with cache := { s.cache with index := f s.cache.index } }) := rfl

end DiskM

theorem valueEnding_mem : DiskCache.valueEnding ∈ endings := by decide

theorem sidecarEnding_mem : DiskCache.sidecarEnding ∈ endings := by decide

theorem mem_endings {e : String} (he : e ∈ [DiskCache.valueEnding, DiskCache.sidecarEnding]) :
    e ∈ endings := by
  revert e
  decide

theorem run_entryPathM {S : Shelf} {d : String} (hd : IsDigest d) {s : DiskState}
    (h : s.cache.directory = S.path) (e : String) :
    (DiskCache.entryPathM d e).run.run s = (.ok (filePath S.path d e), s) := by
  have hpath : s.cache.entryPath (shardOf d) d e = filePath S.path d e := by
    rw [DiskCache.entryPath, h]
    rfl
  rw [DiskCache.entryPathM, hd.shard?_eq, ← hpath]
  rfl

namespace DiskCache

variable {s : DiskState} {now : UInt64} {key : String} {content : ByteArray}

theorem set_refused (hlarge : s.cache.maxSize < UInt64.ofNat content.size) :
    (set now key content).run.run s = (.ok false, s) := by
  rw [set, run_bind_ok (run_get s)]
  simp only [if_pos hlarge]
  rfl

end DiskCache

/-! ## How operations end -/

/-- From a state such as `P` says an operation ends with an answer and in a state such as `Q` says, or
with an error and in a state such as `E` says. -/
structure Ends {α : Type} (P : DiskState → Prop) (op : DiskM α) (Q : α → DiskState → Prop)
    (E : CacheError → DiskState → Prop) : Prop where
  from_state : ∀ s, P s →
    match op.run.run s with
    | (.ok a, s') => Q a s'
    | (.error e, s') => E e s'

namespace Ends

variable {α β : Type} {P P' : DiskState → Prop} {Q Q' : α → DiskState → Prop}
  {R : β → DiskState → Prop} {E E' : CacheError → DiskState → Prop} {s s' : DiskState}

theorem of_ok {op : DiskM α} {a : α} (h : Ends P op Q E) (hs : P s)
    (hrun : op.run.run s = (.ok a, s')) : Q a s' := by
  have hend := h.from_state s hs
  rw [hrun] at hend
  exact hend

theorem of_error {op : DiskM α} {e : CacheError} (h : Ends P op Q E) (hs : P s)
    (hrun : op.run.run s = (.error e, s')) : E e s' := by
  have hend := h.from_state s hs
  rw [hrun] at hend
  exact hend

/-- An operation that ends with no error ends with an answer. -/
theorem exists_ok {op : DiskM α} (h : Ends P op Q fun _ _ => False) (hs : P s) :
    ∃ a s', op.run.run s = (.ok a, s') ∧ Q a s' := by
  rcases hrun : op.run.run s with ⟨e | a, s'⟩
  · exact (h.of_error hs hrun).elim
  · exact ⟨a, s', rfl, h.of_ok hs hrun⟩

theorem of_run {op : DiskM α} (h : ∀ s, P s → ∃ a s', op.run.run s = (.ok a, s') ∧ Q a s') :
    Ends P op Q E := by
  refine ⟨fun s hs => ?_⟩
  obtain ⟨a, s', hrun, ha⟩ := h s hs
  rw [hrun]
  exact ha

theorem pure {a : α} (h : ∀ s, P s → Q a s) : Ends P (pure a : DiskM α) Q E :=
  ⟨fun s hs => h s hs⟩

theorem throw {e : CacheError} (h : ∀ s, P s → E e s) : Ends P (throw e : DiskM α) Q E :=
  ⟨fun s hs => h s hs⟩

theorem bind {x : DiskM α} {f : α → DiskM β} (hx : Ends P x Q E)
    (hf : ∀ a, Ends (Q a) (f a) R E) : Ends P (x >>= f) R E := by
  refine ⟨fun s hs => ?_⟩
  rcases hrun : x.run.run s with ⟨e | a, s'⟩
  · rw [run_bind_error hrun]
    exact hx.of_error hs hrun
  · rw [run_bind_ok hrun]
    exact (hf a).from_state s' (hx.of_ok hs hrun)

/-- An operation goes on as it does from the state that it is in. -/
theorem get_bind {f : DiskState → DiskM α} (h : ∀ s, P s → Ends (· = s) (f s) Q E) :
    Ends P (MonadState.get >>= f) Q E := by
  refine ⟨fun s hs => ?_⟩
  rw [run_bind_ok (run_get s)]
  exact (h s hs).from_state s rfl

theorem get_bind_kept {f : DiskState → DiskM α} (h : ∀ s, P s → Ends P (f s) Q E) :
    Ends P (MonadState.get >>= f) Q E := by
  refine ⟨fun s hs => ?_⟩
  rw [run_bind_ok (run_get s)]
  exact (h s hs).from_state s hs

theorem handle {x : DiskM α} {f : CacheError → DiskM α} (hx : Ends P x Q E')
    (hf : ∀ e, Ends (E' e) (f e) Q E) : Ends P (tryCatch x f) Q E := by
  refine ⟨fun s hs => ?_⟩
  rw [run_tryCatch]
  rcases hrun : x.run.run s with ⟨e | a, s'⟩
  · exact (hf e).from_state s' (hx.of_error hs hrun)
  · exact hx.of_ok hs hrun

/-- What does not depend on the state may be assumed. -/
theorem assume {A : Prop} {op : DiskM α} (h : A → Ends P op Q E) :
    Ends (fun s => A ∧ P s) op Q E :=
  ⟨fun s hs => (h hs.1).from_state s hs.2⟩

theorem of_exists {ι : Type} {P : ι → DiskState → Prop} {op : DiskM α}
    (h : ∀ i, Ends (P i) op Q E) : Ends (fun s => ∃ i, P i s) op Q E := by
  refine ⟨fun s hs => ?_⟩
  obtain ⟨i, hs⟩ := hs
  exact (h i).from_state s hs

theorem imp {op : DiskM α} (h : Ends P op Q E) (hP : ∀ s, P' s → P s)
    (hQ : ∀ a s, Q a s → Q' a s) (hE : ∀ e s, E e s → E' e s) : Ends P' op Q' E' := by
  refine ⟨fun s hs => ?_⟩
  rcases hrun : op.run.run s with ⟨e | a, s'⟩
  · exact hE e s' (h.of_error (hP s hs) hrun)
  · exact hQ a s' (h.of_ok (hP s hs) hrun)

theorem imp_state {op : DiskM α} (h : Ends P op Q E) (hP : ∀ s, P' s → P s) : Ends P' op Q E :=
  h.imp hP (fun _ _ ha => ha) fun _ _ he => he

theorem imp_error {op : DiskM α} (h : Ends P op Q E) (hE : ∀ e s, E e s → E' e s) :
    Ends P op Q E' :=
  h.imp (fun _ hs => hs) (fun _ _ ha => ha) hE

theorem modifyIndex {f : DiskIndex → DiskIndex} {Q : Unit → DiskState → Prop}
    (h : ∀ s, P s → Q () { s with cache := { s.cache with index := f s.cache.index } }) :
    Ends P (DiskM.modifyIndex f) Q E :=
  ⟨fun s hs => h s hs⟩

theorem modify {f : DiskState → DiskState} {Q : Unit → DiskState → Prop}
    (h : ∀ s, P s → Q () (f s)) : Ends P (modify f : DiskM Unit) Q E :=
  ⟨fun s hs => h s hs⟩

theorem files {op : FileM α}
    (h : ∀ s, P s → Q (op.run s.drive).1 { s with drive := (op.run s.drive).2 }) :
    Ends P (DiskM.files op) Q E :=
  ⟨fun s hs => h s hs⟩

theorem file {path : String} {op : FileM (Except OsError α)}
    (h : ∀ s, P s →
      match (op.run s.drive).1 with
      | .ok a => Q a { s with drive := (op.run s.drive).2 }
      | .error o => E (.io path o) { s with drive := (op.run s.drive).2 }) :
    Ends P (DiskM.file path op) Q E := by
  refine ⟨fun s hs => ?_⟩
  have hend := h s hs
  rw [DiskM.run_file]
  rcases hop : (op.run s.drive).1 with o | a
  · rw [hop] at hend
    exact hend
  · rw [hop] at hend
    exact hend

end Ends

/-! ## Faults that tell the truth -/

/-- No fault says of a file that it is missing. -/
def Truthful (faults : List (Option Fault)) : Prop :=
  ∀ f, some f ∈ faults → f.error ≠ .notFound

theorem truthful_nil : Truthful [] := by
  intro f hf
  cases hf

theorem Truthful.tail {faults : List (Option Fault)} (h : Truthful faults) :
    Truthful faults.tail :=
  fun f hf => h f (List.mem_of_mem_tail hf)

theorem Truthful.head {faults : List (Option Fault)} (h : Truthful faults) {f : Fault}
    (hf : faults.head?.join = some f) : f.error ≠ .notFound := by
  refine h f ?_
  rcases faults with _ | ⟨g, rest⟩
  · cases hf
  · obtain rfl : g = some f := hf
    exact List.mem_cons_self ..

namespace FileM

variable {α : Type} {d : Drive}

/-- Looking answers what is there, or fails by a fault. -/
theorem reading_truthful (op : Volume → Except OsError α) (h : Truthful d.faults) :
    ((CodeGraph.FileM.reading op).run d).2 = { d with faults := d.faults.tail } ∧
      (((CodeGraph.FileM.reading op).run d).1 = op d.volume ∨
        d.faults ≠ [] ∧ ∃ e, e ≠ .notFound ∧ ((CodeGraph.FileM.reading op).run d).1 = .error e) := by
  rw [CodeGraph.FileM.run_reading]
  refine ⟨rfl, ?_⟩
  rcases hf : d.faults.head?.join with _ | f
  · exact .inl rfl
  · refine .inr ⟨?_, f.error, h.head hf, rfl⟩
    intro hnil
    rw [hnil] at hf
    cases hf

/-- A change that is made whole or not at all is made, or fails for a reason or by a fault. -/
theorem writing_truthful (write : Volume → Except OsError Volume) (h : Truthful d.faults) :
    ((CodeGraph.FileM.writing write).run d).2.faults = d.faults.tail ∧
      ((∃ v, write d.volume = .ok v ∧ ((CodeGraph.FileM.writing write).run d).1 = .ok () ∧
          ((CodeGraph.FileM.writing write).run d).2.volume = v) ∨
        ((CodeGraph.FileM.writing write).run d).2.volume = d.volume ∧
          ((∃ e, write d.volume = .error e ∧ ((CodeGraph.FileM.writing write).run d).1 = .error e) ∨
            d.faults ≠ [] ∧
              ∃ e, e ≠ .notFound ∧ ((CodeGraph.FileM.writing write).run d).1 = .error e)) := by
  rw [CodeGraph.FileM.run_writing]
  rcases hf : d.faults.head?.join with _ | ⟨e, written⟩
  · rcases hwrite : write d.volume with e | v
    · exact ⟨rfl, .inr ⟨rfl, .inl ⟨e, rfl, rfl⟩⟩⟩
    · exact ⟨rfl, .inl ⟨v, rfl, rfl, rfl⟩⟩
  · refine ⟨rfl, .inr ⟨?_, .inr ⟨?_, e, h.head hf, rfl⟩⟩⟩
    · rcases written with _ | n
      · rfl
      · rfl
    · intro hnil
      rw [hnil] at hf
      cases hf

end FileM

/-- A change uses up one fault, or none if there is none left. -/
theorem DiskM.faults_of_run {path : String} {write : Volume → Except OsError Volume}
    {torn : Nat → Volume → Volume} {short : Volume → Volume} {s s' : DiskState}
    {r : Except CacheError Unit}
    (h : (DiskM.file path (CodeGraph.FileM.writing write torn short)).run.run s = (r, s')) :
    s'.drive.faults = s.drive.faults.tail := by
  have hfaults := FileM.faults_writing write torn short s.drive
  rw [DiskM.run_file] at h
  cases h
  exact hfaults

end CodeGraph.Cache
