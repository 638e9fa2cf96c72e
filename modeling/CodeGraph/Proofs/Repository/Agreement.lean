import CodeGraph.Proofs.Repository.Contents
import CodeGraph.Repository.Store

/-!
# Repositories of both kinds answer alike

A repository in memory and one of files that both start without graphs give the same answers to any
calls, one after the other (`Repository.runAll_agree`). What the files hold after a call are the
documents of the graphs that the memory holds after it (`FileRepository.Keeps.perform`), and that the
answers of the two are equal is then a matter of each call on its own.

The answers of one repository fit together (`Repository.Coherent`): a listing is strictly increasing,
the last graph of a codebase in it is the one that is found for the codebase, and a graph is there
exactly if it is found.
-/

namespace CodeGraph

open Json

/-- A call of a repository. -/
inductive RepositoryStep where
  | save (g : PropertyGraph)
  | findById (id : String)
  | findByCodebase (codebase : String)
  | delete (id : String)
  | list
  | contains (id : String)

/-- What a call answers. -/
inductive RepositoryAnswer where
  | saved
  | graph (found : Option PropertyGraph)
  | deleted (there : Bool)
  | listing (l : List GraphMetadata)
  | contained (there : Bool)

namespace Repository

/-- The answer of a call, and the repository afterwards. -/
def perform (R : Repository) : RepositoryStep →
    FileRepository.RepositoryM (RepositoryAnswer × Repository)
  | .save g => do return (.saved, ← R.save g)
  | .findById id => do return (.graph (← R.findById id), R)
  | .findByCodebase codebase => do return (.graph (← R.findByCodebase codebase), R)
  | .delete id => do
    let (there, R) ← R.delete id
    return (.deleted there, R)
  | .list => do return (.listing (← R.list), R)
  | .contains id => do return (.contained (← R.contains id), R)

/-- The answers of calls one after the other, and the repository afterwards. -/
def runAll (R : Repository) : List RepositoryStep →
    FileRepository.RepositoryM (List RepositoryAnswer × Repository)
  | [] => return ([], R)
  | s :: steps => do
    let (answer, R) ← R.perform s
    let (answers, R) ← runAll R steps
    return (answer :: answers, R)

end Repository

namespace MemoryRepository

/-- The answer of a call, and the repository afterwards. -/
def answer (m : MemoryRepository) : RepositoryStep → RepositoryAnswer × MemoryRepository
  | .save g => (.saved, m.save g)
  | .findById id => (.graph (m.findById id), m)
  | .findByCodebase codebase => (.graph (m.findByCodebase codebase), m)
  | .delete id => (.deleted (m.delete id).1, (m.delete id).2)
  | .list => (.listing m.list, m)
  | .contains id => (.contained (m.contains id), m)

/-- The answers of calls one after the other, and the repository afterwards. -/
def answers (m : MemoryRepository) : List RepositoryStep → List RepositoryAnswer × MemoryRepository
  | [] => ([], m)
  | s :: steps =>
    let (rest, last) := answers (m.answer s).2 steps
    ((m.answer s).1 :: rest, last)

theorem run_perform (m : MemoryRepository) (s : RepositoryStep) (d : Drive) :
    ((Repository.memory m).perform s).run.run d =
      (.ok ((m.answer s).1, .memory (m.answer s).2), d) := by
  cases s <;> rfl

theorem run_runAll (m : MemoryRepository) (steps : List RepositoryStep) (d : Drive) :
    ((Repository.memory m).runAll steps).run.run d =
      (.ok ((m.answers steps).1, .memory (m.answers steps).2), d) := by
  induction steps generalizing m with
  | nil => rfl
  | cons s steps ih =>
    refine (run_bind_ok (m.run_perform s d)).trans ?_
    exact run_bind_ok (ih (m.answer s).2)

end MemoryRepository

namespace FileRepository

variable {r : FileRepository} {v : Volume} {m : NameMap PropertyGraph}

/-- The calls that concern the files of a repository: identifiers are names of files that are not too
long, and graphs are read back from their documents. -/
def Accepts (r : FileRepository) : RepositoryStep → Prop
  | .save g => r.Storable g
  | .findById id | .delete id | .contains id => r.Names id
  | .findByCodebase _ | .list => True

/-- A call of the files is answered as the memory answers it that keeps the same graphs. -/
theorem Keeps.perform (h : r.Keeps v m) {s : RepositoryStep} (hs : r.Accepts s) :
    ∃ w, ((Repository.files r).perform s).run.run ⟨v, []⟩ =
        (.ok ((MemoryRepository.answer ⟨m⟩ s).1, .files r), ⟨w, []⟩) ∧
      r.Keeps w (MemoryRepository.answer ⟨m⟩ s).2.graphs := by
  cases s with
  | save g =>
    obtain ⟨w, hrun, hw⟩ := h.run_save hs
    have hsave : ((Repository.files r).save g).run.run ⟨v, []⟩ = (.ok (.files r), ⟨w, []⟩) :=
      run_bind_ok hrun
    exact ⟨w, run_bind_ok hsave, hw⟩
  | findById id => exact ⟨v, run_bind_ok (h.run_findById hs), h⟩
  | findByCodebase codebase => exact ⟨v, run_bind_ok (h.run_findByCodebase codebase), h⟩
  | delete id =>
    obtain ⟨w, hrun, hw⟩ := h.run_delete hs
    have hdelete : ((Repository.files r).delete id).run.run ⟨v, []⟩ =
        (.ok (m.contains id, .files r), ⟨w, []⟩) := run_bind_ok hrun
    exact ⟨w, run_bind_ok hdelete, hw⟩
  | list => exact ⟨v, run_bind_ok h.run_list, h⟩
  | contains id => exact ⟨v, run_bind_ok (h.run_contains hs), h⟩

theorem Keeps.runAll (h : r.Keeps v m) {steps : List RepositoryStep}
    (hsteps : ∀ s ∈ steps, r.Accepts s) :
    ∃ w, ((Repository.files r).runAll steps).run.run ⟨v, []⟩ =
        (.ok ((MemoryRepository.answers ⟨m⟩ steps).1, .files r), ⟨w, []⟩) ∧
      r.Keeps w (MemoryRepository.answers ⟨m⟩ steps).2.graphs := by
  induction steps generalizing v m with
  | nil => exact ⟨v, rfl, h⟩
  | cons s steps ih =>
    obtain ⟨hs, hsteps⟩ := List.forall_mem_cons.1 hsteps
    obtain ⟨u, hperform, hu⟩ := h.perform hs
    obtain ⟨w, hrun, hw⟩ := ih hu hsteps
    exact ⟨w, (run_bind_ok hperform).trans (run_bind_ok hrun), hw⟩

/-- A directory that is empty, or missing and can be made. -/
structure Fresh (r : FileRepository) (v : Volume) : Prop where
  tree : v.IsTree
  directory : v.readDir r.directory = .ok [] ∨ v.readDir r.directory = .error .notFound ∧
    ∃ w, v.makeDirs r.directory = .ok w ∧ w.readDir r.directory = .ok []

theorem holds_empty_of_readDir (hv : v.IsTree) (h : v.readDir r.directory = .ok []) :
    ∃ q, r.Holds q v .empty := by
  obtain ⟨q, hlead, hchildren⟩ := Volume.leadsTo_of_readDir h
  exact ⟨q, holds_empty hv hlead hchildren.symm⟩

theorem Fresh.keeps (h : r.Fresh v) : r.Keeps v .empty := by
  rcases h.directory with hempty | ⟨hmissing, w, hmake, hempty⟩
  · exact .inl (holds_empty_of_readDir h.tree hempty)
  · obtain ⟨q, hw⟩ := holds_empty_of_readDir (h.tree.makeDirs hmake) hempty
    exact .inr ⟨rfl, h.tree, hmissing, q, w, hmake, hw⟩

end FileRepository

/-! ## Answers that fit together -/

/-- The answers of a repository fit together: a listing is strictly increasing, what is found for a
codebase is the last graph of the codebase in it, and a graph is there exactly if it is found. -/
def Repository.Coherent (R : Repository) (d : Drive) (asked : String → Prop) : Prop :=
  ∃ l, R.list.run.run d = (.ok l, d) ∧ l.Pairwise GraphMetadata.Before ∧
    (∀ codebase, ∃ found, (R.findByCodebase codebase).run.run d = (.ok found, d) ∧
      found.map (·.metadata) = (l.filter fun x => x.codebase == codebase).getLast? ∧
      ∀ g ∈ found, (R.findById g.id).run.run d = (.ok (some g), d)) ∧
    ∀ id, asked id → ∃ found, (R.findById id).run.run d = (.ok found, d) ∧
      (R.contains id).run.run d = (.ok found.isSome, d)

namespace FileRepository

variable {r : FileRepository} {v : Volume} {m : NameMap PropertyGraph}

/-- What a memory with the same graphs finds for a codebase is the last of its graphs in the listing. -/
theorem Keeps.findByCodebase_memory (h : r.Keeps v m) (codebase : String) :
    (MemoryRepository.findByCodebase ⟨m⟩ codebase).map (·.metadata) =
        ((MemoryRepository.list ⟨m⟩).filter fun x => x.codebase == codebase).getLast? ∧
      ∀ g ∈ MemoryRepository.findByCodebase ⟨m⟩ codebase, m.get? g.id = some g := by
  have hlatest : GraphMetadata.latest?
      ((MemoryRepository.metadata ⟨m⟩).filter fun x => x.codebase == codebase) =
        ((MemoryRepository.list ⟨m⟩).filter fun x => x.codebase == codebase).getLast? :=
    GraphMetadata.latest?_filter h.nodup_id _
  rw [MemoryRepository.findByCodebase, ← hlatest]
  generalize hx : GraphMetadata.latest? (List.filter _ _) = found
  rcases found with _ | x
  · exact ⟨rfl, by simp⟩
  · obtain ⟨g, hget, rfl⟩ := h.exists_graph
      (List.mem_filter.1 (GraphMetadata.latest?_eq_some hx).1).1
    have hfound : (some g.metadata).bind (fun x => MemoryRepository.findById ⟨m⟩ x.id) = some g := hget
    rw [hfound]
    refine ⟨rfl, fun g' hg' => ?_⟩
    obtain rfl := Option.some.inj hg'
    exact hget

theorem Keeps.coherent_memory (h : r.Keeps v m) (d : Drive) :
    (Repository.memory ⟨m⟩).Coherent d fun _ => True := by
  refine ⟨MemoryRepository.list ⟨m⟩, rfl, GraphMetadata.pairwise_before_oldestFirst h.nodup_id,
    fun codebase => ?_, fun id _ => ⟨m.get? id, rfl, rfl⟩⟩
  obtain ⟨hlast, hget⟩ := h.findByCodebase_memory codebase
  refine ⟨_, rfl, hlast, fun g hg => ?_⟩
  rw [← hget g hg]
  rfl

theorem Keeps.coherent_files (h : r.Keeps v m) :
    (Repository.files r).Coherent ⟨v, []⟩ r.Names := by
  refine ⟨MemoryRepository.list ⟨m⟩, h.run_list,
    GraphMetadata.pairwise_before_oldestFirst h.nodup_id, fun codebase => ?_,
    fun id hid => ⟨m.get? id, h.run_findById hid, h.run_contains hid⟩⟩
  obtain ⟨hlast, hget⟩ := h.findByCodebase_memory codebase
  refine ⟨_, h.run_findByCodebase codebase, hlast, fun g hg => ?_⟩
  obtain ⟨q, hq⟩ := h.exists_holds (hget g hg)
  rw [← hget g hg]
  exact h.run_findById (hq.names (hget g hg))

end FileRepository

namespace FileRepository

/-! ## A repository that is asked -/

theorem fresh_store : store.Fresh storeVolume :=
  ⟨unlinked_storeVolume.toIsTree, .inr ⟨readDir_store, _, makeDirs_store, leadsTo_store.readDir⟩⟩

/-- A graph is saved, found and deleted. -/
def storeSteps : List RepositoryStep :=
  [.list, .save (notedGraph "owner"), .contains "g", .findByCodebase "/a", .delete "g", .findById "g"]

theorem accepts_storeSteps : ∀ s ∈ storeSteps, store.Accepts s := by
  simp only [storeSteps, List.forall_mem_cons, Accepts, true_and]
  exact ⟨storable_notedGraph, names_store, names_store, names_store, by simp⟩

end FileRepository

/-- **Both kinds of repository are one.** Repositories in memory and of files that start without graphs
give the same answers to any calls, and afterwards the answers of each fit together. -/
theorem Repository.runAll_agree {r : FileRepository} {v : Volume} (hfresh : r.Fresh v)
    {steps : List RepositoryStep} (hsteps : ∀ s ∈ steps, r.Accepts s) (d : Drive) :
    ∃ answers m w,
      ((Repository.memory {}).runAll steps).run.run d = (.ok (answers, .memory m), d) ∧
      ((Repository.files r).runAll steps).run.run ⟨v, []⟩ = (.ok (answers, .files r), ⟨w, []⟩) ∧
      (Repository.memory m).Coherent d (fun _ => True) ∧
      (Repository.files r).Coherent ⟨w, []⟩ r.Names := by
  obtain ⟨w, hfiles, hw⟩ := hfresh.keeps.runAll hsteps
  exact ⟨_, _, w, MemoryRepository.run_runAll {} steps d, hfiles, hw.coherent_memory d,
    hw.coherent_files⟩

/-- A repository in memory and one of files find the graph that was saved, and no graph once it is
deleted. -/
theorem Repository.runAll_agree_store :
    FileRepository.store.Fresh FileRepository.storeVolume ∧
      (∀ s ∈ FileRepository.storeSteps, FileRepository.store.Accepts s) ∧
      ∃ w, ((Repository.files FileRepository.store).runAll FileRepository.storeSteps).run.run
        ⟨FileRepository.storeVolume, []⟩ =
          (.ok ([.listing [], .saved, .contained true,
            .graph (some (FileRepository.notedGraph "owner")), .deleted true, .graph none],
            .files FileRepository.store), ⟨w, []⟩) := by
  refine ⟨FileRepository.fresh_store, FileRepository.accepts_storeSteps, ?_⟩
  obtain ⟨answers, m, w, hmemory, hfiles, -⟩ := runAll_agree FileRepository.fresh_store
    FileRepository.accepts_storeSteps ⟨FileRepository.storeVolume, []⟩
  have hanswers : (MemoryRepository.answers {} FileRepository.storeSteps).1 =
      [.listing [], .saved, .contained true, .graph (some (FileRepository.notedGraph "owner")),
        .deleted true, .graph none] := by
    have hempty : MemoryRepository.list {} = [] := List.mergeSort_nil
    rw [FileRepository.storeSteps, MemoryRepository.answers, MemoryRepository.answer, hempty]
    rfl
  rw [MemoryRepository.run_runAll] at hmemory
  obtain ⟨hrun, -⟩ := Prod.mk.inj hmemory
  obtain ⟨rfl, -⟩ := Prod.mk.inj (Except.ok.inj hrun)
  exact ⟨w, hanswers ▸ hfiles⟩

end CodeGraph
