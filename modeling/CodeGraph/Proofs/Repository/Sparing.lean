import CodeGraph.Proofs.Repository.Persistence
import CodeGraph.Proofs.Volume.Spared

/-!
# What saving a graph spares

A graph that is saved changes two names in the directory of the repository, and directories above it
are made that were missing. All other places are spared (`FileRepository.spared_of_save`). It is saved
unless a file is in the way of the directory or a directory in that of the document, or a name or a
path is too long (`FileRepository.exists_save`).
-/

namespace CodeGraph

open Volume (LeftAlone)

namespace FileRepository

variable {S T : List String → Prop} {r : FileRepository} {g : PropertyGraph} {d d' : Drive}
  {q : List String}

/-- Saving a graph spares what is not in the directory of the repository. -/
theorem spared_of_save (hv : d.volume.Unlinked) (hp : d.volume.Straight r.directory q)
    (hclears : d.volume.Clears S q)
    (hnames : ∀ n, n = documentName g.id ∨ n = unfinishedName g.id → ¬ T (q ++ [n]))
    (hsave : (r.save g).run.run d = (.ok (), d')) : LeftAlone S T d.volume d'.volume := by
  obtain ⟨hid, v₁, v₂, hmake, hwrite, hrename⟩ := exists_of_save hsave
  have hv₁ := hv.makeDirs hmake
  have hp₁ : v₁.Straight r.directory q := hp.within (Volume.within_makeDirs hmake)
  obtain ⟨hplain, hlead, hdir, hput⟩ := hp₁.of_writeFile hv₁ hwrite (isSegment_unfinishedName hid)
  have hunfinished := hnames _ (.inr rfl)
  have hmade : LeftAlone S T d.volume v₁ :=
    (LeftAlone.refl hv).makeDirs hp hlead.short hmake hclears.above
  have hwritten : LeftAlone S T d.volume v₂ := by
    rw [hput]
    exact hmade.put hlead.item? hplain hdir (by simp) (hclears.below _) fun h => absurd h hunfinished
  have hp₂ : v₂.Straight r.directory q := hwritten.straight hv hp
  have hitem : v₂.item? (q ++ [unfinishedName g.id]) =
      some (.file (g.toJson.pretty 0).toUTF8) := by
    rw [hput, Volume.item?_put _ (by simp), if_pos rfl]
  have hfound : ∀ {q' i}, v₂.find false (Path.join r.directory (unfinishedName g.id)) = .ok (q', i) →
      q' = q ++ [unfinishedName g.id] ∧ i = .file (g.toJson.pretty 0).toUTF8 := by
    intro q' i hfind
    obtain ⟨rfl, hi⟩ := (hp₂.join hplain).of_find hwritten.unlinked hfind
    exact ⟨rfl, Option.some.inj (hi.symm.trans hitem)⟩
  have hsource : ∀ q', v₂.find false (Path.join r.directory (unfinishedName g.id)) ≠
      .ok (q', .directory) := fun q' hfind => nomatch (hfound hfind).2
  rcases Volume.exists_move_of_rename hrename hsource with
    hsame | ⟨q', i, r', j, hfind, -, hresolve, hj, -, hmove⟩
  · exact hsame ▸ hwritten
  · obtain ⟨rfl, rfl⟩ := hfound hfind
    obtain ⟨hplain', -⟩ :=
      Volume.LeadsTo.of_resolve_join hp.ne_empty (isSegment_documentName hid) hresolve
    obtain rfl := (hp₂.join hplain').of_resolve hwritten.unlinked hresolve
    have hremoved := hwritten.remove (r := q ++ [unfinishedName g.id]) (by simp [hitem])
      (hclears.below _) hunfinished
    rw [hmove]
    refine hremoved.put ?_ hplain' ?_ (by simp) (hclears.below _) fun h =>
      absurd h (hnames _ (.inl rfl))
    · refine hwritten.unlinked.directory_remove (by simp [hitem]) ?_
      exact hwritten.unlinked.parent _ _ (by rw [hitem]; rfl)
    · rw [Volume.resolve_eq_ok hresolve] at hj
      exact fun hdirectory => hj (Volume.item?_of_remove hdirectory)

/-- A graph can be saved. Its document is in the directory then, and no directory is new there. -/
theorem exists_save {v : Volume} (hid : isValidId g.id = true) (hv : v.Unlinked)
    (hp : v.Straight r.directory q) (hfree : ∀ s, s <+: q → v.contentAt? s = none)
    (hname : (unfinishedName g.id).utf8ByteSize ≤ Volume.longestName)
    (hlen : r.directory.utf8ByteSize + 1 + (unfinishedName g.id).utf8ByteSize ≤ Volume.longestPath)
    (hnames : ∀ n, v.item? (q ++ [n]) ≠ some .directory) :
    ∃ w, (r.save g).run.run ⟨v, []⟩ = (.ok (), ⟨w, []⟩) ∧ w.item? q = some .directory ∧
      ∀ n, w.item? (q ++ [n]) ≠ some .directory := by
  obtain ⟨u, hmake⟩ := hp.exists_makeDirs hv (by omega) hfree
  obtain ⟨hlead, hmade⟩ := hp.made_of_makeDirs hv (by omega) hmake
  have hu := hv.makeDirs hmake
  have hinside : ∀ n, u.item? (q ++ [n]) = v.item? (q ++ [n]) := by
    intro n
    rw [hmade, if_neg]
    rintro ⟨-, hlonger⟩
    have hlength := hlonger.length_le
    simp at hlength
  have hfile : ∀ n i, u.item? (q ++ [n]) = some i → ∃ old, i = .file old := by
    rintro n (old | _ | target) hi
    · exact ⟨old, rfl⟩
    · exact absurd ((hinside n).symm.trans hi) (hnames n)
    · exact absurd hi (hu.unlinked _ target)
  have hshorter : (documentName g.id).utf8ByteSize ≤ (unfinishedName g.id).utf8ByteSize := by
    have hsize : ".json".utf8ByteSize ≤ ".json.tmp".utf8ByteSize := by decide
    simp only [documentName, unfinishedName, String.utf8ByteSize_append]
    omega
  have hunfinished := (isSegment_unfinishedName hid).isPlain hname
  have hdocument := (isSegment_documentName hid).isPlain (Nat.le_trans hshorter hname)
  have hjoin := Path.utf8ByteSize_join_le hp.ne_empty hunfinished
  have hjoin' := Path.utf8ByteSize_join_le hp.ne_empty hdocument
  obtain ⟨hwrite, hrename⟩ := hlead.publish (g.toJson.pretty 0).toUTF8 (hfile (unfinishedName g.id))
    (hfile (documentName g.id)) hunfinished (by omega) hdocument (by omega) (unfinishedName_ne g.id)
  refine ⟨_, run_save hid hmake hwrite hrename, ?_, fun n => ?_⟩
  · exact (hlead.published hu.toIsTree (hfile _) (hfile _)).item?
  · rw [Volume.item?_published]
    split
    · simp
    split
    · simp
    · rw [hinside]
      exact hnames n

end FileRepository

end CodeGraph
