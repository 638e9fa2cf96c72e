import CodeGraph.Proofs.Repository.Contents
import CodeGraph.Proofs.Volume.Lookup
import CodeGraph.Proofs.Volume.Making
import CodeGraph.Proofs.Volume.Written

/-!
# Attempts to save a graph

Saving a graph makes the directory of the repository, writes the document under its unfinished name and
moves it to its own. An attempt ends after any of these steps, by a fault or of itself, and then some of
the directories or a part of the document may stay behind (`FileRepository.attempt_save`). But for
directories that are missing on the way, an attempt changes the two names in the directory of the
repository and what a link under the unfinished one leads to, and nothing else
(`FileRepository.Attempt.item?_cases`).
-/

namespace CodeGraph.FileRepository

open Volume (IsSegment)

variable {r : FileRepository} {g : PropertyGraph} {u v w : Volume} {d : Drive} {id path : String}
  {q s : List String} {answer : Except RepositoryError Unit} {content : ByteArray}

/-- Where the document of an identifier is written first. -/
abbrev unfinishedPath (r : FileRepository) (id : String) : String :=
  Path.join r.directory (unfinishedName id)

/-! ## How an attempt ends -/

/-- What an attempt to save a graph on a volume answers, and what it leaves. -/
inductive Attempt (r : FileRepository) (g : PropertyGraph) (v : Volume) :
    Except RepositoryError Unit → Volume → Prop
  | unmade {e} : Attempt r g v (.error e) v
  | short {e o} : v.makeDirs r.directory = .error o →
      Attempt r g v (.error e) (v.dirsLeft r.directory)
  | made {e u} : v.makeDirs r.directory = .ok u → Attempt r g v (.error e) u
  | unfinished {e u w content} : v.makeDirs r.directory = .ok u →
      u.writeFile (r.unfinishedPath g.id) content = .ok w → Attempt r g v (.error e) w
  | saved {u w x} : v.makeDirs r.directory = .ok u →
      u.writeFile (r.unfinishedPath g.id) (document g) = .ok w →
      w.rename (r.unfinishedPath g.id) (r.documentPath g.id) = .ok x → Attempt r g v (.ok ()) x

section Writing

variable {write : Volume → Except OsError Volume} {torn : Nat → Volume → Volume}
  {short : Volume → Volume}

theorem run_file_writing_ok (hfault : d.faults.head?.join = none) (h : write d.volume = .ok w) :
    (file path (FileM.writing write torn short)).run.run d = (.ok (), ⟨w, d.faults.tail⟩) := by
  rw [run_file, FileM.run_writing, hfault]
  simp only [h]
  rfl

theorem run_file_writing_short {o : OsError} (hfault : d.faults.head?.join = none)
    (h : write d.volume = .error o) : (file path (FileM.writing write torn short)).run.run d =
      (.error (.io path o), ⟨short d.volume, d.faults.tail⟩) := by
  rw [run_file, FileM.run_writing, hfault]
  simp only [h]
  rfl

theorem run_file_writing_fault {f : Fault} (hfault : d.faults.head?.join = some f) :
    (file path (FileM.writing write torn short)).run.run d = (.error (.io path f.error),
      ⟨(f.written.map fun n => torn n d.volume).getD d.volume, d.faults.tail⟩) := by
  rw [run_file, FileM.run_writing, hfault]
  rfl

/-- A change succeeds, or it fails and leaves the volume, something torn or what falls short. -/
theorem file_writing_outcome (path : String) (write : Volume → Except OsError Volume)
    (torn : Nat → Volume → Volume) (short : Volume → Volume) (d : Drive) :
    ∃ d', (file path (FileM.writing write torn short)).run.run d = (.ok (), d') ∧
        write d.volume = .ok d'.volume ∨
      ∃ e, (file path (FileM.writing write torn short)).run.run d = (.error e, d') ∧
        (d'.volume = d.volume ∨ (∃ n, d'.volume = torn n d.volume) ∨
          ∃ o, write d.volume = .error o ∧ d'.volume = short d.volume) := by
  rcases hfault : d.faults.head?.join with _ | f
  · rcases hwrite : write d.volume with o | w
    · exact ⟨_, .inr ⟨_, run_file_writing_short hfault hwrite, .inr (.inr ⟨o, rfl, rfl⟩)⟩⟩
    · exact ⟨_, .inl ⟨run_file_writing_ok hfault hwrite, rfl⟩⟩
  · refine ⟨_, .inr ⟨_, run_file_writing_fault hfault, ?_⟩⟩
    rcases f.written with _ | n
    · exact .inl rfl
    · exact .inr (.inl ⟨n, rfl⟩)

/-- A change succeeds that meets no fault, and what follows goes on from there. -/
theorem run_writing_bind_ok_iff {α : Type} {next : Unit → RepositoryM α} {a : α} {d' : Drive} :
    (file path (FileM.writing write torn short) >>= next).run.run d = (.ok a, d') ↔
      d.faults.head?.join = none ∧ ∃ w, write d.volume = .ok w ∧
        (next ()).run.run ⟨w, d.faults.tail⟩ = (.ok a, d') := by
  rcases hfault : d.faults.head?.join with _ | f
  · rcases hwrite : write d.volume with o | w
    · rw [run_bind_error (run_file_writing_short hfault hwrite)]
      exact iff_of_false (fun h => nomatch h) fun ⟨_, _, h, _⟩ => nomatch h
    · rw [run_bind_ok (run_file_writing_ok hfault hwrite)]
      simp
  · rw [run_bind_error (run_file_writing_fault hfault)]
    exact iff_of_false (fun h => nomatch h) fun ⟨h, _⟩ => nomatch h

end Writing

/-- Every run of saving is an attempt, whatever faults are met. -/
theorem attempt_save (hid : isValidId g.id = true) (d : Drive) :
    r.Attempt g d.volume ((r.save g).run.run d).1 ((r.save g).run.run d).2.volume := by
  rw [save_of_valid hid, run_bind_ok (run_checkId hid d)]
  obtain ⟨d₁, ⟨hrun, hmake⟩ | ⟨e, hrun, hvolume⟩⟩ := file_writing_outcome r.directory
    (·.makeDirs r.directory) (fun _ v => v) (·.dirsLeft r.directory) d
  · rw [FileM.makeDirs, run_bind_ok hrun]
    obtain ⟨d₂, ⟨hrun, hwrite⟩ | ⟨e, hrun, hvolume⟩⟩ := file_writing_outcome (r.unfinishedPath g.id)
      (·.writeFile (r.unfinishedPath g.id) (document g)) (fun n v =>
        (v.writeFile (r.unfinishedPath g.id) ((document g).extract 0 n)).toOption.getD v)
      (fun v => v) d₁
    · refine (run_bind_ok hrun).symm ▸ ?_
      obtain ⟨d₃, ⟨hrun, hrename⟩ | ⟨e, hrun, hvolume⟩⟩ := file_writing_outcome (r.documentPath g.id)
        (·.rename (r.unfinishedPath g.id) (r.documentPath g.id)) (fun _ v => v) (fun v => v) d₂
      · rw [FileM.rename, hrun]
        exact .saved hmake hwrite hrename
      · rw [FileM.rename, hrun]
        have hleft : d₃.volume = d₂.volume := by
          rcases hvolume with h | ⟨-, h⟩ | ⟨-, -, h⟩ <;> exact h
        rw [hleft]
        exact .unfinished hmake hwrite
    · refine (run_bind_error hrun).symm ▸ ?_
      rcases hvolume with hleft | ⟨n, hleft⟩ | ⟨-, -, hleft⟩
      · rw [hleft]
        exact .made hmake
      · rcases htorn : d₁.volume.writeFile (r.unfinishedPath g.id) ((document g).extract 0 n) with
          o | w
        · rw [htorn] at hleft
          rw [hleft]
          exact .made hmake
        · rw [htorn] at hleft
          rw [hleft]
          exact .unfinished hmake htorn
      · rw [hleft]
        exact .made hmake
  · rw [FileM.makeDirs, run_bind_error hrun]
    rcases hvolume with hleft | ⟨-, hleft⟩ | ⟨o, hmake, hleft⟩
    · rw [hleft]
      exact .unmade
    · rw [hleft]
      exact .unmade
    · rw [hleft]
      exact .short hmake

/-! ## What an attempt changes -/

/-- The places that an attempt to save a graph reaches: those of its two names in the directory of the
repository, and the one to which a link under the unfinished name leads. -/
inductive Reaches (r : FileRepository) (id : String) (u : Volume) : List String → Prop
  | document {q : List String} : u.LooksIn r.directory q → Reaches r id u (q ++ [documentName id])
  | unfinished {q : List String} : u.LooksIn r.directory q → Reaches r id u (q ++ [unfinishedName id])
  | link {q s : List String} {target : String} {i : Option Item} : u.LooksIn r.directory q →
      u.item? (q ++ [unfinishedName id]) = some (.link target) →
      u.resolve true (r.unfinishedPath id) = .ok (s, i) → Reaches r id u s

/-- What is written under the unfinished name is written at a place that is reached. -/
theorem exists_of_writeFile_unfinished (hid : isValidId id = true) (hu : u.IsTree)
    (h : u.writeFile (r.unfinishedPath id) content = .ok w) : w.IsTree ∧ w.current = u.current ∧
      ∃ q, u.LooksIn r.directory q ∧ w.LooksIn r.directory q ∧
        ∀ s, w.item? s = u.item? s ∨ r.Reaches id u s := by
  obtain ⟨hw, s, i, hresolve, hs, rfl, hfile⟩ := hu.writeFile h
  obtain ⟨q, hq, hplace⟩ := Volume.exists_of_resolve_behind (isSegment_unfinishedName hid) hresolve
  refine ⟨hw, Volume.current_put .., q, hq, hq.kept (Volume.current_put ..) ?_, fun s' => ?_⟩
  · intro t j hj hkept
    rw [Volume.item?_put u hs, if_neg, hj]
    rintro rfl
    obtain ⟨old, rfl⟩ := hfile j hj
    exact hkept old rfl
  · rw [Volume.item?_put u hs]
    split
    · next heq =>
      right
      rcases hplace with rfl | ⟨-, target, hlink⟩
      · exact heq ▸ .unfinished hq
      · exact heq ▸ .link hq hlink hresolve
    · exact .inl rfl

/-- What is moved from the unfinished name to that of the document is changed at these two places. -/
theorem item?_of_rename_unfinished (hid : isValidId id = true) (hw : w.IsTree)
    (hq : w.LooksIn r.directory q)
    (hsource : ∀ s, w.find false (r.unfinishedPath id) ≠ .ok (s, .directory))
    (h : w.rename (r.unfinishedPath id) (r.documentPath id) = .ok u) : u.current = w.current ∧
      ∀ s, u.item? s = w.item? s ∨ s = q ++ [unfinishedName id] ∨ s = q ++ [documentName id] := by
  rcases Volume.exists_move_of_rename h hsource with
    rfl | ⟨a, i, b, j, hfind, hi, hresolve, -, -, rfl⟩
  · exact ⟨rfl, fun s => .inl rfl⟩
  obtain ⟨q₁, hq₁, rfl⟩ := Volume.exists_of_resolve_unfollowed (isSegment_unfinishedName hid)
    (Volume.resolve_of_find hfind)
  obtain ⟨q₂, hq₂, rfl⟩ :=
    Volume.exists_of_resolve_unfollowed (isSegment_documentName hid) hresolve
  obtain rfl := hq.unique hq₁
  obtain rfl := hq.unique hq₂
  refine ⟨Volume.current_put .., fun s => ?_⟩
  rw [Volume.item?_put _ (by simp)]
  split
  · next heq => exact .inr (.inr heq)
  · by_cases hs : s = q ++ [unfinishedName id]
    · exact .inr (.inl hs)
    · exact .inl (hw.item?_remove_other (Volume.not_directory_of_find hfind hi) hs)

/-- **What an attempt changes.** Every place is as it was, or a directory is made there that the path of
the repository wants, or it is one that the attempt reaches. -/
theorem Attempt.item?_cases (hid : isValidId g.id = true) (hv : v.IsTree)
    (h : r.Attempt g v answer w) : w.current = v.current ∧ ∀ s, w.item? s = v.item? s ∨
      (v.item? s = none ∧ w.item? s = some .directory ∧ v.Wants r.directory s) ∨
      ∃ u, v.makeDirs r.directory = .ok u ∧ r.Reaches g.id u s := by
  have hmade : ∀ {u : Volume}, v.Grown r.directory u → ∀ s, u.item? s = v.item? s ∨
      (v.item? s = none ∧ u.item? s = some .directory ∧ v.Wants r.directory s) ∨
      ∃ u, v.makeDirs r.directory = .ok u ∧ r.Reaches g.id u s :=
    fun hgrown s => (hgrown s).imp_right .inl
  -- Behind the directories that are made, a place is changed only if it is reached.
  have hlater : ∀ {u w : Volume}, v.makeDirs r.directory = .ok u →
      (∀ s, w.item? s = u.item? s ∨ r.Reaches g.id u s) → ∀ s, w.item? s = v.item? s ∨
        (v.item? s = none ∧ w.item? s = some .directory ∧ v.Wants r.directory s) ∨
        ∃ u, v.makeDirs r.directory = .ok u ∧ r.Reaches g.id u s := by
    intro u w hmake hreach s
    rcases hreach s with hsame | hreached
    · rw [hsame]
      exact hmade (Volume.grown_makeDirs hmake) s
    · exact .inr (.inr ⟨u, hmake, hreached⟩)
  cases h with
  | unmade => exact ⟨rfl, fun s => .inl rfl⟩
  | short =>
    exact ⟨(Volume.within_dirsLeft ..).current, hmade (Volume.grown_dirsLeft v r.directory)⟩
  | made hmake =>
    exact ⟨(Volume.within_makeDirs hmake).current, hmade (Volume.grown_makeDirs hmake)⟩
  | unfinished hmake hwrite =>
    obtain ⟨-, hcurrent, -, -, -, hreach⟩ :=
      exists_of_writeFile_unfinished hid (hv.makeDirs hmake) hwrite
    exact ⟨hcurrent.trans (Volume.within_makeDirs hmake).current, hlater hmake hreach⟩
  | saved hmake hwrite hrename =>
    obtain ⟨hw, hcurrent, q, hq, hq', hreach⟩ :=
      exists_of_writeFile_unfinished hid (hv.makeDirs hmake) hwrite
    obtain ⟨hcurrent', hmoved⟩ := item?_of_rename_unfinished hid hw hq'
      (fun s => Volume.find_of_writeFile hwrite) hrename
    refine ⟨hcurrent'.trans (hcurrent.trans (Volume.within_makeDirs hmake).current),
      hlater hmake fun s => ?_⟩
    rcases hmoved s with hsame | rfl | rfl
    · rw [hsame]
      exact hreach s
    · exact .inr (.unfinished hq)
    · exact .inr (.document hq)

end CodeGraph.FileRepository
