import CodeGraph.Proofs.Repository.Confinement

/-!
# Saves that fail

A save that fails leaves nothing, the directory of the repository or a file under the unfinished name
(`FileRepository.Fenced.left`). What is left is not noticed by those who ask for graphs: it is neither a
document nor on the way to one (`FileRepository.Fenced.unnoticed`). Nor is it in the way of another save
of the graph, which writes over it (`FileRepository.save_again`).
-/

namespace CodeGraph.FileRepository

open CodeGraph.Path (IsPlain)
open Volume (IsSegment Takes longestName longestPath)

variable {r : FileRepository} {g : PropertyGraph} {u v w : Volume} {id : String} {names : List String}
  {q : List String} {e : RepositoryError} {content : ByteArray}

/-! ## Saving again -/

/-- A save succeeds as before where an attempt has failed, whatever this has left. -/
theorem save_again (hv : v.IsTree) (h : r.Attempt g v (.error e) w) {faults : List (Option Fault)}
    {d : Drive} (hsave : (r.save g).run.run ⟨v, faults⟩ = (.ok (), d)) :
    (r.save g).run.run ⟨w, faults⟩ = (.ok (), d) := by
  obtain ⟨hid, -⟩ := exists_of_save hsave
  rw [save_of_valid hid, run_bind_ok (run_checkId hid _)] at hsave ⊢
  obtain ⟨hfault, u, hmake, hsave⟩ := run_writing_bind_ok_iff.1 hsave
  obtain ⟨hfault', x, hwrite, hrename⟩ := run_writing_bind_ok_iff.1 hsave
  obtain ⟨u', hmake', hwrite'⟩ : ∃ u', w.makeDirs r.directory = .ok u' ∧
      u'.writeFile (r.unfinishedPath g.id) (document g) = .ok x := by
    have hu := hv.makeDirs hmake
    obtain ⟨-, -, q, hq, -⟩ := exists_of_writeFile_unfinished hid hu hwrite
    cases h with
    | unmade => exact ⟨u, hmake, hwrite⟩
    | short herror =>
      rw [herror] at hmake
      cases hmake
    | made hmade =>
      obtain rfl := Except.ok.inj (hmade.symm.trans hmake)
      exact ⟨_, hq.makeDirs, hwrite⟩
    | unfinished hmade hwritten =>
      obtain rfl := Except.ok.inj (hmade.symm.trans hmake)
      obtain ⟨-, -, q', -, hq', -⟩ := exists_of_writeFile_unfinished hid hu hwritten
      exact ⟨w, hq'.makeDirs, Volume.writeFile_again hu hwritten hwrite⟩
  exact run_writing_bind_ok_iff.2 ⟨hfault, u', hmake',
    run_writing_bind_ok_iff.2 ⟨hfault', x, hwrite', hrename⟩⟩

/-! ## What is left -/

/-- A volume on which the unfinished name of an identifier is fenced off: the directory of the repository
is there or can be made by plain names, the unfinished name is no link there, and no link leads to or
through something of this name. -/
structure Fenced (r : FileRepository) (id : String) (v : Volume) : Prop where
  tree : v.IsTree
  name : ∀ q n, (v.item? (q ++ [n])).isSome → IsPlain n
  anchored : Takes r.directory → v.Anchored r.directory
  unfinished : ∀ q target, v.LooksIn r.directory q →
    v.item? (q ++ [unfinishedName id]) ≠ some (.link target)
  target : ∀ s target, v.item? s = some (.link target) → unfinishedName id ∉ Path.split target

/-- What a save that fails leaves: the volume as it was, a file under the unfinished name beside what was
in the directory, or the directory, which was missing, with nothing else. -/
inductive Left (r : FileRepository) (id : String) (v : Volume) : Volume → Prop
  | nothing : Left r id v v
  | beside {q : List String} {content : ByteArray} : v.LooksIn r.directory q →
      (∀ j, v.item? (q ++ [unfinishedName id]) = some j → ∃ old, j = .file old) →
      Left r id v (v.put (q ++ [unfinishedName id]) (.file content))
  | fresh {w : Volume} {q : List String} : Takes r.directory →
      v.readDir r.directory = .error .notFound → w.LeadsTo r.directory q →
      (∀ n, n ≠ unfinishedName id → w.item? (q ++ [n]) = none) → Left r id v w

/-- A file is written under the unfinished name in the directory, unless there is a link. -/
theorem eq_put_of_writeFile_unfinished (hid : isValidId id = true) (hu : u.IsTree)
    (hq : u.LooksIn r.directory q)
    (hlink : ∀ target, u.item? (q ++ [unfinishedName id]) ≠ some (.link target))
    (h : u.writeFile (r.unfinishedPath id) content = .ok w) :
    w = u.put (q ++ [unfinishedName id]) (.file content) ∧
      ∀ j, u.item? (q ++ [unfinishedName id]) = some j → ∃ old, j = .file old := by
  obtain ⟨-, s, i, hresolve, -, rfl, hfile⟩ := hu.writeFile h
  obtain ⟨q', hq', hs⟩ := Volume.exists_of_resolve_behind (isSegment_unfinishedName hid) hresolve
  obtain rfl := hq.unique hq'
  obtain rfl : s = q ++ [unfinishedName id] :=
    hs.resolve_right fun ⟨_, target, hi⟩ => hlink target hi
  exact ⟨rfl, hfile⟩

/-- What is left where the directory is there. -/
theorem Fenced.left_of_looksIn (h : r.Fenced g.id v) (hid : isValidId g.id = true)
    (hq : v.LooksIn r.directory q) (hattempt : r.Attempt g v (.error e) w) : r.Left g.id v w := by
  cases hattempt with
  | unmade => exact .nothing
  | short herror =>
    rw [hq.makeDirs] at herror
    cases herror
  | made hmade =>
    obtain rfl := Except.ok.inj (hq.makeDirs.symm.trans hmade)
    exact .nothing
  | unfinished hmade hwritten =>
    obtain rfl := Except.ok.inj (hq.makeDirs.symm.trans hmade)
    obtain ⟨rfl, hfile⟩ := eq_put_of_writeFile_unfinished hid h.tree hq
      (fun target => h.unfinished q target hq) hwritten
    exact .beside hq hfile

/-- What is left where the directory is missing and can be made. -/
theorem left_of_missing (hid : isValidId g.id = true) (htakes : Takes r.directory)
    (hmissing : v.readDir r.directory = .error .notFound) (hmake : v.makeDirs r.directory = .ok u)
    (hu : u.IsTree) (hq : u.LeadsTo r.directory q) (hnone : ∀ n, u.item? (q ++ [n]) = none)
    (hattempt : r.Attempt g v (.error e) w) : r.Left g.id v w := by
  cases hattempt with
  | unmade => exact .nothing
  | short herror =>
    rw [hmake] at herror
    cases herror
  | made hmade =>
    obtain rfl := Except.ok.inj (hmake.symm.trans hmade)
    exact .fresh htakes hmissing hq fun n _ => hnone n
  | unfinished hmade hwritten =>
    obtain rfl := Except.ok.inj (hmake.symm.trans hmade)
    obtain ⟨rfl, hfile⟩ := eq_put_of_writeFile_unfinished hid hu hq.looksIn
      (fun target hi => nomatch (hnone _).symm.trans hi) hwritten
    refine .fresh htakes hmissing (hq.put hfile _) fun n hn => ?_
    rw [Volume.item?_put u (by simp), if_neg (by simpa using hn)]
    exact hnone n

/-- **What a failed save leaves.** -/
theorem Fenced.left (h : r.Fenced g.id v) (hid : isValidId g.id = true)
    (hdirectory : r.directory = "" ∨ Takes r.directory) (hattempt : r.Attempt g v (.error e) w) :
    r.Left g.id v w := by
  rcases hdirectory with hempty | htakes
  · exact h.left_of_looksIn hid (hempty ▸ v.looksIn_empty) hattempt
  rcases (h.anchored htakes).cases h.tree htakes with
    ⟨q, hq⟩ | ⟨hmissing, u, q, hmake, hu, hq, hmade, hnew⟩ | ⟨⟨o, herror⟩, hleft⟩
  · exact h.left_of_looksIn hid hq.looksIn hattempt
  · refine left_of_missing hid htakes hmissing hmake hu hq (fun n => ?_) hattempt
    rw [hmade.item?_concat, h.tree.item?_behind (by simp [hnew])]
  · cases hattempt with
    | unmade => exact .nothing
    | short =>
      rw [hleft]
      exact .nothing
    | made hmade | unfinished hmade =>
      rw [herror] at hmade
      cases hmade

/-! ## What is not noticed -/

/-- An identifier of which a missing directory tells the same as an empty one: the name of its document is
not too long for a directory, or the directory is not missing. -/
def Asks (r : FileRepository) (v : Volume) (id : String) : Prop :=
  (documentName id).utf8ByteSize ≤ longestName ∨ ∃ q, v.LooksIn r.directory q

/-- Whoever asks for graphs is answered the same on two volumes. -/
structure Unnoticed (r : FileRepository) (v w : Volume) : Prop where
  list : Alike v w r.list
  findByCodebase : ∀ codebase, Alike v w (r.findByCodebase codebase)
  findById : ∀ id, r.Asks v id → Alike v w (r.findById id)
  contains : ∀ id, r.Asks v id → Alike v w (r.contains id)

theorem alike_of_find (h : isValidId id = true → (v.find true (r.documentPath id)).map Prod.snd =
    (w.find true (r.documentPath id)).map Prod.snd) :
    Alike v w (r.findById id) ∧ Alike v w (r.contains id) := by
  by_cases hid : isValidId id = true
  · exact ⟨.findById (Volume.readFile_eq (h hid)), .contains (Volume.tryExists_eq (h hid))⟩
  · have hrefuses := r.refuses (Bool.not_eq_true _ ▸ hid)
    rw [hrefuses.findById, hrefuses.contains]
    exact ⟨.throw _, .throw _⟩

/-- Nothing is noticed where every name leads to the same and the listings do. -/
theorem unnoticed_of_find (hopened : r.opened v = r.opened w)
    (hfind : ∀ n, IsSegment n → r.Opens n → (v.find true (Path.join r.directory n)).map Prod.snd =
      (w.find true (Path.join r.directory n)).map Prod.snd)
    (hnames : ∀ names, r.opened v = .ok names → ∀ n ∈ names, IsSegment n ∧ r.Opens n) :
    r.Unnoticed v w := by
  have hscan : Alike v w (scan r) := .scan hopened fun names hok n hn =>
    Volume.readFile_eq (hfind n (hnames names hok n hn).1 (hnames names hok n hn).2)
  have hid : ∀ id, Alike v w (r.findById id) ∧ Alike v w (r.contains id) := fun id =>
    alike_of_find fun hid => hfind _ (isSegment_documentName hid) (opens_documentName hid)
  exact ⟨.list hscan, .findByCodebase hscan (.inr fun id => (hid id).1), fun id _ => (hid id).1,
    fun id _ => (hid id).2⟩

/-- What a scan opens is listed in the directory of the repository. -/
theorem exists_of_mem_opened {n : String} (h : r.opened v = .ok names) (hn : n ∈ names) :
    ∃ q, v.LeadsTo r.directory q ∧ (v.item? (q ++ [n])).isSome ∧ r.Opens n := by
  rw [opened] at h
  rcases hread : v.readDir r.directory with o | listed <;> rw [hread] at h
  · cases o
    case notFound =>
      cases h
      cases hn
    all_goals cases h
  · obtain ⟨q, hq, rfl⟩ := Volume.leadsTo_of_readDir hread
    cases h
    obtain ⟨hlisted, hopens⟩ := List.mem_filter.1 hn
    exact ⟨q, hq, Volume.mem_children.1 hlisted, of_decide_eq_true hopens⟩

theorem opened_eq (hq : v.LeadsTo r.directory q) :
    r.opened v = .ok ((v.children q).filter fun n => r.Opens n) := by
  rw [opened, hq.readDir]

/-- An unfinished name is not that of a document. -/
theorem not_opens_unfinishedName (hid : isValidId id = true) : ¬ r.Opens (unfinishedName id) := by
  have hname : unfinishedName id = documentName id ++ "." ++ "tmp" := by
    rw [unfinishedName_eq, String.append_assoc]
    rfl
  rw [Opens, Path.fileExtension?, Path.fileName?_join r.directory (isSegment_unfinishedName hid),
    Option.bind_some, hname,
    Path.splitName_append (isSegment_documentName hid).ne_empty (by decide)]
  exact fun heq => absurd (Option.some.inj heq) (by decide)

theorem unnoticed_self (r : FileRepository) (v : Volume) : r.Unnoticed v v :=
  have hscan : Alike v v (scan r) := .scan rfl fun _ _ _ _ => rfl
  ⟨.list hscan, .findByCodebase hscan (.inr fun _ => .findById rfl), fun _ _ => .findById rfl,
    fun _ _ => .contains rfl⟩

/-- A file under the unfinished name is not noticed beside what is in the directory. -/
theorem Fenced.unnoticed_beside (h : r.Fenced id v) (hid : isValidId id = true)
    (hq : v.LooksIn r.directory q)
    (hfile : ∀ j, v.item? (q ++ [unfinishedName id]) = some j → ∃ old, j = .file old) :
    r.Unnoticed v (v.put (q ++ [unfinishedName id]) (.file content)) := by
  have hother : ∀ {n}, r.Opens n → n ≠ unfinishedName id := fun hopens heq =>
    not_opens_unfinishedName hid (heq ▸ hopens)
  refine unnoticed_of_find ?_ (fun n hn hopens => Volume.map_find_eq ?_) fun names hok n hn => ?_
  · rcases hq.cases with ⟨hempty, -⟩ | hlead
    · have hnone : ∀ x : Volume, r.opened x = .ok [] := fun x => by
        rw [opened, hempty]
        rfl
      rw [hnone, hnone]
    · rw [opened_eq hlead, opened_eq (hlead.put hfile _)]
      rcases Volume.children_put v (p := q ++ [unfinishedName id]) (by simp) q (.file content) with
        hsame | ⟨n, hn, -, hadded⟩
      · rw [hsame]
      · obtain rfl : unfinishedName id = n := by simpa using hn
        rw [hadded, List.filter_append]
        simp [not_opens_unfinishedName hid]
  · rw [hq.resolve_put_beside h.tree hfile h.target hn (hother hopens)]
  · obtain ⟨q', -, hsome, hopens⟩ := exists_of_mem_opened hok hn
    exact ⟨(h.name q' n hsome).isSegment, hopens⟩

/-- A directory without documents is not noticed where it was missing. -/
theorem unnoticed_fresh (hv : v.IsTree) (hid : isValidId id = true) (htakes : Takes r.directory)
    (hmissing : v.readDir r.directory = .error .notFound) (hq : w.LeadsTo r.directory q)
    (hnone : ∀ n, n ≠ unfinishedName id → w.item? (q ++ [n]) = none) : r.Unnoticed v w := by
  have hopened : r.opened v = .ok [] := by
    rw [opened, hmissing]
  have hopened' : r.opened w = .ok [] := by
    rw [opened_eq hq]
    refine congrArg Except.ok (List.filter_eq_nil_iff.2 fun n hn hopens => ?_)
    rw [Volume.mem_children, hnone n] at hn
    · cases hn
    · rintro rfl
      exact not_opens_unfinishedName hid (of_decide_eq_true hopens)
  have hscan : Alike v w (scan r) := .scan (hopened.trans hopened'.symm) fun names hok n hn => by
    obtain rfl := Except.ok.inj (hopened.symm.trans hok)
    cases hn
  have hasked : ∀ id', r.Asks v id' → Alike v w (r.findById id') ∧ Alike v w (r.contains id') := by
    intro id' hasks
    refine alike_of_find fun hid' => ?_
    have hshort : (documentName id').utf8ByteSize ≤ longestName := by
      refine hasks.resolve_right fun hlooks => ?_
      obtain ⟨q', hq'⟩ := hlooks
      rw [(hq'.leadsTo htakes.ne_empty).readDir] at hmissing
      cases hmissing
    have hname := isSegment_documentName hid'
    by_cases hlen : (r.documentPath id').utf8ByteSize ≤ longestPath
    · have hresolve := Volume.resolve_join_missing hv hmissing htakes.ne_empty htakes.unended
        htakes.short hname hlen true
      rw [Volume.find, hresolve, hq.find_join_missing (hname.isPlain hshort) hlen
        (hnone _ (unfinishedName_ne_documentName _ _).symm)]
      rfl
    · refine Volume.map_find_eq ?_
      rw [Volume.resolve_of_not_takes (fun h => hlen h.short) v w]
  exact ⟨.list hscan, .findByCodebase hscan (.inl hopened), fun id' h => (hasked id' h).1,
    fun id' h => (hasked id' h).2⟩

/-- Nothing is noticed in a directory whose path is not looked up. -/
theorem unnoticed_of_not_takes (hempty : r.directory ≠ "") (htakes : ¬ Takes r.directory)
    (v w : Volume) : r.Unnoticed v w := by
  refine unnoticed_of_find ?_ (fun n hn _ => Volume.map_find_eq ?_) fun names hok n hn => ?_
  · obtain ⟨o, ho⟩ := Volume.exists_resolve_error htakes
    have hread : ∀ x : Volume, x.readDir r.directory = .error o := fun x => by
      rw [Volume.readDir, Volume.find, ho]
      rfl
    rw [opened, opened, hread, hread]
  · rw [Volume.resolve_of_not_takes (fun h => htakes (.of_join hempty hn h)) v w]
  · obtain ⟨q, hq, -⟩ := exists_of_mem_opened hok hn
    exact absurd ⟨hq.ne_empty, hq.unended, hq.short⟩ htakes

/-- **Saves that fail are not noticed.** -/
theorem Fenced.unnoticed (h : r.Fenced g.id v) (hid : isValidId g.id = true)
    (hattempt : r.Attempt g v (.error e) w) : r.Unnoticed v w := by
  by_cases hdirectory : r.directory = "" ∨ Takes r.directory
  · cases h.left hid hdirectory hattempt with
    | nothing => exact unnoticed_self r v
    | beside hq hfile => exact h.unnoticed_beside hid hq hfile
    | fresh htakes hmissing hq hnone => exact unnoticed_fresh h.tree hid htakes hmissing hq hnone
  · obtain ⟨hempty, htakes⟩ := not_or.1 hdirectory
    exact unnoticed_of_not_takes hempty htakes v w

/-- **A failed save changes nothing** for those who ask for graphs, whatever operation it has failed at. What
it leaves is what an attempt leaves, and where an attempt has left it a later save of the graph succeeds
as it would without. -/
theorem failed_save_unnoticed {faults rest : List (Option Fault)} (h : r.Fenced g.id v)
    (hrun : (r.save g).run.run ⟨v, faults⟩ = (.error e, ⟨w, rest⟩)) :
    r.Unnoticed v w ∧ r.Attempt g v (.error e) w ∧
    ∀ v' w' e', v'.IsTree → r.Attempt g v' (.error e') w' → ∀ faults' d,
      (r.save g).run.run ⟨v', faults'⟩ = (.ok (), d) →
        (r.save g).run.run ⟨w', faults'⟩ = (.ok (), d) := by
  suffices hleft : r.Unnoticed v w ∧ r.Attempt g v (.error e) w from
    ⟨hleft.1, hleft.2, fun _ _ _ hv' hattempt _ _ => save_again hv' hattempt⟩
  by_cases hid : isValidId g.id = true
  · have hattempt := attempt_save (r := r) hid ⟨v, faults⟩
    rw [hrun] at hattempt
    exact ⟨h.unnoticed hid hattempt, hattempt⟩
  · rw [(r.refuses (Bool.not_eq_true _ ▸ hid)).save g rfl] at hrun
    cases hrun
    exact ⟨unnoticed_self r v, .unmade⟩

theorem fenced_store : store.Fenced "g" storeVolume where
  tree := unlinked_storeVolume.toIsTree
  name := unlinked_storeVolume.name
  anchored _ := leadsTo_storeVolume.anchored.join (by decide) isPlain_graphs
  unfinished q target _ := unlinked_storeVolume.unlinked _ target
  target s target hi := absurd hi (unlinked_storeVolume.unlinked s target)

/-- A part of the document is left when the space runs out. Nobody notices, and the graph is saved then. -/
theorem failed_save_unnoticed_torn : ∃ w d, (store.save (notedGraph "owner")).run.run
      ⟨storeVolume, [none, some ⟨.noSpace, some 7⟩]⟩ =
        (.error (.io (store.unfinishedPath "g") .noSpace), ⟨w, []⟩) ∧
    store.Unnoticed storeVolume w ∧
    (store.save (notedGraph "owner")).run.run ⟨w, []⟩ = (.ok (), d) := by
  have hid : isValidId (notedGraph "owner").id = true := by decide
  obtain ⟨w, hrun⟩ : ∃ w, (store.save (notedGraph "owner")).run.run
      ⟨storeVolume, [none, some ⟨.noSpace, some 7⟩]⟩ =
        (.error (.io (store.unfinishedPath "g") .noSpace), ⟨w, []⟩) := by
    rw [save_of_valid hid, run_bind_ok (run_checkId hid _)]
    exact ⟨_, (run_bind_ok (run_file_writing_ok rfl makeDirs_store)).trans
      (run_bind_error (run_file_writing_fault (f := ⟨.noSpace, some 7⟩) rfl))⟩
  obtain ⟨hunnoticed, hattempt, hagain⟩ := failed_save_unnoticed fenced_store hrun
  obtain ⟨x, hsave⟩ := exists_save_store (notedGraph "owner") rfl
  exact ⟨w, _, hrun, hunnoticed, hagain _ _ _ fenced_store.tree hattempt _ _ hsave⟩

/-! ## What is noticed -/

/-- Where the directory was missing, it is there to refuse a name that is too long. -/
theorem exists_save_long (hid : isValidId g.id = true)
    (hlong : longestName < (documentName g.id).utf8ByteSize) (hshort : g.id.utf8ByteSize ≤ 4000) :
    ∃ w e e', (store.save g).run.run ⟨storeVolume, []⟩ = (.error e, ⟨w, []⟩) ∧
      (store.contains g.id).run.run ⟨storeVolume, []⟩ = (.ok false, ⟨storeVolume, []⟩) ∧
      (store.contains g.id).run.run ⟨w, []⟩ = (.error e', ⟨w, []⟩) := by
  have htree := unlinked_storeVolume.toIsTree.makeDirs makeDirs_store
  have hpath : ∀ n : String, n.utf8ByteSize ≤ 4009 → '/' ∉ n.toList →
      (Path.join store.directory n).utf8ByteSize ≤ longestPath := by
    intro n hn hslash
    have hsize : store.directory.utf8ByteSize = 12 := by decide
    have hsize' : "/".utf8ByteSize = 1 := by decide
    have hlongest : longestPath = 4095 := rfl
    rw [Path.join_unslashed (by decide) hslash]
    split <;> simp only [String.utf8ByteSize_append, hsize, hsize'] <;> omega
  have hname := isSegment_documentName hid
  have hname' := isSegment_unfinishedName hid
  have hsize : (documentName g.id).utf8ByteSize = g.id.utf8ByteSize + 5 := String.utf8ByteSize_append
  have hsize' : (unfinishedName g.id).utf8ByteSize = g.id.utf8ByteSize + 9 := String.utf8ByteSize_append
  have hlen := hpath (documentName g.id) (by omega) hname.unslashed
  have hwrite : (storeVolume.put ["store", "graphs"] .directory).writeFile
      (store.unfinishedPath g.id) (document g) = .error .nameTooLong := by
    rw [Volume.writeFile, leadsTo_store.looksIn.resolve_join_long htree hname' (by omega)
      (hpath _ (by omega) hname'.unslashed)]
    rfl
  refine ⟨storeVolume.put ["store", "graphs"] .directory, .io (store.unfinishedPath g.id) .nameTooLong,
    .io (store.documentPath g.id) .nameTooLong, ?_, ?_, ?_⟩
  · rw [save_of_valid hid, run_bind_ok (run_checkId hid _)]
    exact (run_bind_ok (run_file_writing_ok rfl makeDirs_store)).trans
      (run_bind_error (run_file_writing_short rfl hwrite))
  · rw [run_contains hid, Volume.tryExists, Volume.metadata, Volume.find,
      Volume.resolve_join_missing unlinked_storeVolume.toIsTree readDir_store (by decide) (by decide)
        (by decide) hname hlen]
    rfl
  · rw [run_contains hid, Volume.tryExists, Volume.metadata, Volume.find,
      leadsTo_store.looksIn.resolve_join_long htree hname hlong hlen]
    rfl

/-- A repository in a directory where the document of `h` is a link to the unfinished one of `g`, whose
own document cannot be replaced. -/
def snaredVolume : Volume :=
  ⟨[(["graphs"], .directory), (["graphs", "g.json"], .directory),
    (["graphs", "h.json"], .link "g.json.tmp")], []⟩

/-- The repository in this directory. -/
def snared : FileRepository :=
  ⟨"graphs"⟩

theorem isTree_snaredVolume : snaredVolume.IsTree := by
  refine .of_entries rfl fun e he => ?_
  simp only [snaredVolume, List.mem_cons, List.not_mem_nil, or_false] at he
  rcases he with rfl | rfl | rfl
  · exact ⟨[], "graphs", rfl, rfl⟩
  · exact ⟨["graphs"], "g.json", rfl, rfl⟩
  · exact ⟨["graphs"], "h.json", rfl, rfl⟩

theorem leadsTo_snaredVolume : snaredVolume.LeadsTo snared.directory ["graphs"] :=
  Volume.leadsTo_name rfl isPlain_graphs rfl

/-- Under the name of the document of `h` the unfinished one of `g` is found. -/
theorem find_snared (hcurrent : v.current = []) (hdir : v.item? ["graphs"] = some .directory)
    (hlink : v.item? ["graphs", "h.json"] = some (.link "g.json.tmp"))
    (hend : ∀ target, v.item? ["graphs", "g.json.tmp"] ≠ some (.link target)) :
    v.resolve true (snared.documentPath "h") =
      .ok (["graphs", "g.json.tmp"], v.item? ["graphs", "g.json.tmp"]) := by
  have htarget : Path.split "g.json.tmp" = ["g.json.tmp"] := by decide
  have hname : IsPlain "g.json.tmp" := by decide
  refine (Volume.resolve_join_link (n := documentName "h") hcurrent isPlain_graphs (by decide) hdir
    hlink).trans ?_
  rw [if_neg (by decide), htarget]
  exact Volume.walk_singleton hdir hname.toIsName hend true 39

/-- What a link leads to is there after the failed save. -/
theorem exists_save_snared (hg : g.id = "g") : ∃ w e,
    (snared.save g).run.run ⟨snaredVolume, []⟩ = (.error e, ⟨w, []⟩) ∧
    (snared.contains "h").run.run ⟨snaredVolume, []⟩ = (.ok false, ⟨snaredVolume, []⟩) ∧
    (snared.contains "h").run.run ⟨w, []⟩ = (.ok true, ⟨w, []⟩) := by
  have hid : isValidId g.id = true := by
    rw [hg]
    decide
  have hh : isValidId "h" = true := by decide
  have hlead := leadsTo_snaredVolume
  obtain ⟨w, hw⟩ : ∃ w, w = snaredVolume.put (["graphs"] ++ [unfinishedName "g"])
    (.file (document g)) := ⟨_, rfl⟩
  have hnothing : snaredVolume.item? ["graphs", "g.json.tmp"] = none := rfl
  have hnone : ∀ i, snaredVolume.item? (["graphs"] ++ [unfinishedName "g"]) = some i →
      ∃ old, i = .file old := by
    intro i hi
    cases hi
  have hwrite : snaredVolume.writeFile (snared.unfinishedPath "g") (document g) = .ok w :=
    hw ▸ hlead.writeFile_join (by decide) (by decide) hnone
  have hlead' : w.LeadsTo snared.directory ["graphs"] := hw ▸ hlead.put hnone _
  have hitem : ∀ s, w.item? s = if s = ["graphs", "g.json.tmp"] then some (.file (document g))
      else snaredVolume.item? s := by
    rw [hw]
    exact Volume.item?_put snaredVolume (by simp) _
  have hrename : w.rename (snared.unfinishedPath "g") (snared.documentPath "g") =
      .error .isDirectory := by
    have hfind := hlead'.find_join (n := unfinishedName "g") (by decide) (by decide) (hitem _)
      (by simp) false
    have hthere : w.item? (["graphs"] ++ [documentName "g"]) = some .directory := hitem _
    have hend : ∀ target, w.item? (["graphs"] ++ [documentName "g"]) ≠ some (.link target) := by
      rw [hthere]
      simp
    have hresolve := hlead'.resolve_join (n := documentName "g") (by decide) (by decide) hend false
    rw [hthere] at hresolve
    rw [Volume.rename, hfind]
    simp only [bind, Except.bind, hresolve]
    rfl
  rw [← hg] at hwrite hrename
  refine ⟨w, .io (snared.documentPath g.id) .isDirectory, ?_, ?_, ?_⟩
  · rw [save_of_valid hid, run_bind_ok (run_checkId hid _)]
    refine (run_bind_ok (run_file_writing_ok rfl hlead.makeDirs)).trans ?_
    refine (run_bind_ok (run_file_writing_ok rfl hwrite)).trans ?_
    exact run_file_writing_short rfl hrename
  · rw [run_contains hh, Volume.tryExists, Volume.metadata, Volume.find,
      find_snared (v := snaredVolume) rfl rfl rfl (by simp [hnothing])]
    rfl
  · rw [run_contains hh, Volume.tryExists, Volume.metadata, Volume.find,
      find_snared (hw ▸ Volume.current_put ..) (hitem _) (hitem _) (by simp [hitem]), hitem, if_pos rfl]
    rfl

/-- A graph of no nodes. -/
def emptyGraph (id : String) : PropertyGraph :=
  .ofDocument ⟨⟨id, "/a", "multi", 1, []⟩, [], []⟩

/-- It is not so that all identifiers are answered as before when a save has failed, not even without
links, nor where the directory was there before. -/
theorem failed_save_noticed :
    (¬ ∀ (r : FileRepository) (g : PropertyGraph) (v w : Volume) (e : RepositoryError),
      isValidId g.id = true → v.Unlinked →
      (r.save g).run.run ⟨v, []⟩ = (.error e, ⟨w, []⟩) → ∀ id,
        ((r.contains id).run.run ⟨w, []⟩).1 = ((r.contains id).run.run ⟨v, []⟩).1) ∧
    ¬ ∀ (r : FileRepository) (g : PropertyGraph) (v w : Volume) (e : RepositoryError),
      isValidId g.id = true → v.IsTree → (∃ q, v.LooksIn r.directory q) →
      (r.save g).run.run ⟨v, []⟩ = (.error e, ⟨w, []⟩) → ∀ id,
        ((r.contains id).run.run ⟨w, []⟩).1 = ((r.contains id).run.run ⟨v, []⟩).1 := by
  constructor
  · intro hclaim
    have hvalid : ∀ n, isValidId (.ofList (.replicate (n + 1) 'a')) = true := fun n => by
      simp [isValidId, List.replicate_succ]
    have hsize : ∀ n, (String.ofList (.replicate n 'a')).utf8ByteSize = n := fun n => by
      rw [Cache.utf8ByteSize_ofList, List.length_replicate]
      intro c hc
      rw [List.eq_of_mem_replicate hc]
      rfl
    obtain ⟨g, hid, hlong⟩ : ∃ g : PropertyGraph, isValidId g.id = true ∧ g.id.utf8ByteSize = 251 :=
      ⟨emptyGraph _, hvalid 250, hsize 251⟩
    have hname : (documentName g.id).utf8ByteSize = g.id.utf8ByteSize + 5 := String.utf8ByteSize_append
    have hlongest : longestName = 255 := rfl
    obtain ⟨w, e, e', hsave, hbefore, hafter⟩ := exists_save_long hid (by omega) (by omega)
    have hsame := hclaim store g _ w e hid unlinked_storeVolume hsave g.id
    rw [hbefore, hafter] at hsame
    cases hsame
  · intro hclaim
    obtain ⟨w, e, hsave, hbefore, hafter⟩ := exists_save_snared (g := notedGraph "owner") rfl
    have hsame := hclaim snared _ _ _ _ (by decide) isTree_snaredVolume
      ⟨_, leadsTo_snaredVolume.looksIn⟩ hsave "h"
    rw [hbefore, hafter] at hsame
    cases hsame

end CodeGraph.FileRepository
