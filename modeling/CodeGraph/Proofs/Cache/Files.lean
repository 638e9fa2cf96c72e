import CodeGraph.Proofs.Cache.Runs
import CodeGraph.Proofs.Cache.Programs

/-!
# What the directory of the disk layer holds

`Files` is what a directory in order may hold: some content for each file of an entry, finished or not,
and the directories of some digests. Sidecars need not be legible nor belong to a value. `Shelf.Has`
ties a disk layer to such a content. The operations on the files of one entry are then changes of the
content, whatever truthful faults they meet: `Shelf.ends_removeIfPresent`, `Shelf.ends_removeFiles`,
`Shelf.ends_readFile_bind`, `Shelf.ends_readSidecar`. A failure changes nothing but what came before
it, and without faults there is none.
-/

namespace CodeGraph.Cache

open DiskCache (valueEnding sidecarEnding unfinishedEnding SidecarRead)

instance (d : String) : Decidable (IsDigest d) :=
  decidable_of_iff (d.toList.length = 64 ∧ d.toList.all digits.contains = true)
    ⟨fun h => ⟨h.1, by simpa using h.2⟩, fun h => ⟨h.length, by simpa using h.digit⟩⟩

/-- The contents of the files of entries, and the digests that have a directory. -/
structure Files where
  content : String → String → Option ByteArray
  shard : String → Prop
  digest : ∀ d e, content d e ≠ none → IsDigest d

namespace Files

/-- The files without one. -/
def drop (F : Files) (d e : String) : Files where
  content d' e' := if d' = d ∧ e' = e then none else F.content d' e'
  shard := F.shard
  digest d' e' h := F.digest d' e' fun hnone => h (by rw [hnone, ite_self])

/-- The files without the values and the sidecars of some digests. -/
def without (F : Files) (ds : List String) : Files where
  content d e := if d ∈ ds ∧ (e = valueEnding ∨ e = sidecarEnding) then none else F.content d e
  shard := F.shard
  digest d e h := F.digest d e fun hnone => h (by rw [hnone, ite_self])

/-- What the sidecar of a digest is found to be. -/
def sidecar (F : Files) (d : String) : SidecarRead :=
  match F.content d sidecarEnding with
  | none => .missing
  | some bytes =>
    match Sidecar.decode? bytes with
    | none => .corrupt
    | some m => .found m

/-- The sidecar of a digest, if there is one that can be read and is of the current version. -/
def legible (F : Files) (d : String) : Option Sidecar :=
  match F.sidecar d with
  | .found m => if m.version = Sidecar.currentVersion then some m else none
  | .missing | .corrupt => none

theorem legible_eq_some_iff {F : Files} {d : String} {m : Sidecar} :
    F.legible d = some m ↔ F.sidecar d = .found m ∧ m.version = Sidecar.currentVersion := by
  rw [legible]
  rcases F.sidecar d with _ | _ | m'
  · simp
  · simp
  · simp only [Option.ite_none_right_eq_some, Option.some.injEq, SidecarRead.found.injEq]
    constructor
    · rintro ⟨hversion, rfl⟩
      exact ⟨rfl, hversion⟩
    · rintro ⟨rfl, hversion⟩
      exact ⟨hversion, rfl⟩

theorem content_of_legible {F : Files} {d : String} {m : Sidecar} (h : F.legible d = some m) :
    F.content d sidecarEnding ≠ none := by
  intro hnone
  rw [legible, sidecar, hnone] at h
  cases h

theorem digest_of_legible {F : Files} {d : String} {m : Sidecar} (h : F.legible d = some m) :
    IsDigest d :=
  F.digest d _ (content_of_legible h)

/-- What a lookup of a key finds. -/
def answer (F : Files) (key : String) : Option ByteArray :=
  match F.legible (keyDigest key) with
  | some m => if m.key = key then F.content (keyDigest key) valueEnding else none
  | none => none

theorem content_drop_of_ne (F : Files) {d e d' e' : String} (h : d' ≠ d ∨ e' ≠ e) :
    (F.drop d e).content d' e' = F.content d' e' :=
  if_neg fun hsame => h.elim (fun hne => hne hsame.1) fun hne => hne hsame.2

theorem content_without_of_mem (F : Files) {ds : List String} {d e : String} (hd : d ∈ ds)
    (he : e = valueEnding ∨ e = sidecarEnding) : (F.without ds).content d e = none :=
  if_pos ⟨hd, he⟩

theorem content_without_of_not_mem (F : Files) {ds : List String} {d : String} (hd : d ∉ ds)
    (e : String) : (F.without ds).content d e = F.content d e :=
  if_neg fun h => hd h.1

theorem content_drop_cases (F : Files) (d e d' e' : String) :
    (F.drop d e).content d' e' = F.content d' e' ∨ (F.drop d e).content d' e' = none :=
  (ite_eq_or_eq _ _ _).symm

theorem content_without_cases (F : Files) (ds : List String) (d e : String) :
    (F.without ds).content d e = F.content d e ∨ (F.without ds).content d e = none :=
  (ite_eq_or_eq _ _ _).symm

theorem drop_eq_self {F : Files} {d e : String} (h : F.content d e = none) : F.drop d e = F := by
  have hcontent : (F.drop d e).content = F.content := by
    funext d' e'
    simp only [drop]
    split
    · next hsame => rw [hsame.1, hsame.2, h]
    · rfl
  cases F
  simp only [drop, mk.injEq, and_true]
  exact hcontent

theorem without_nil (F : Files) : F.without [] = F := by
  simp [without]

theorem without_cons (F : Files) (d : String) (ds : List String) :
    (F.without [d]).without ds = F.without (d :: ds) := by
  simp only [without, mk.injEq, and_true]
  funext d' e'
  by_cases he : e' = valueEnding ∨ e' = sidecarEnding
  · by_cases hd : d' = d
    · simp [hd, he]
    · simp [hd, he]
  · simp [he]

theorem drop_drop (F : Files) (d : String) :
    (F.drop d valueEnding).drop d sidecarEnding = F.without [d] := by
  simp only [without, drop, mk.injEq, and_true]
  funext d' e'
  by_cases hd : d' = d
  · by_cases hvalue : e' = valueEnding
    · simp [hd, hvalue]
    · simp [hd, hvalue]
  · simp [hd]

end Files

namespace Shelf

/-- A disk layer whose directory holds some files, and which meets truthful faults only, or none if
it is `clean`. -/
structure Has (S : Shelf) (clean : Prop) (c : DiskCache) (F : Files) (s : DiskState) : Prop where
  cache : s.cache = c
  directory : c.directory = S.path
  truthful : Truthful s.drive.faults
  faultless : clean → s.drive.faults = []
  site : S.Site s.drive.volume
  content : ∀ d e, IsDigest d → S.fileAt s.drive.volume d e = F.content d e
  shard : ∀ d, F.shard d → S.HasShard s.drive.volume d

/-- The files in a volume. -/
def filesOf (S : Shelf) (v : Volume) : Files where
  content d e := if IsDigest d then S.fileAt v d e else none
  shard := S.HasShard v
  digest d e h := by
    by_cases hd : IsDigest d
    · exact hd
    · exact absurd (if_neg hd) h

variable {S : Shelf} {clean : Prop} {c : DiskCache} {F : Files} {s : DiskState}
  {α : Type} {Q : α → DiskState → Prop} {E : CacheError → DiskState → Prop}

theorem has_filesOf (hdir : s.cache.directory = S.path) (hsite : S.Site s.drive.volume)
    (htruthful : Truthful s.drive.faults) (hclean : clean → s.drive.faults = []) :
    S.Has clean s.cache (S.filesOf s.drive.volume) s :=
  ⟨rfl, hdir, htruthful, hclean, hsite, fun _ _ hd => (if_pos hd).symm, fun _ hshard => hshard⟩

theorem Has.fileOf?_eq (h : S.Has clean c F s) {d e : String} (hd : IsDigest d)
    (he : e ∈ endings) : s.fileOf? d e = F.content d e := by
  rw [← h.content d e hd]
  exact S.fileOf?_eq (h.cache ▸ h.directory) h.site hd he

/-- After an operation that has only used up a fault everything is as it was. -/
theorem Has.used (h : S.Has clean c F s) {s' : DiskState} (hcache : s'.cache = s.cache)
    (hvolume : s'.drive.volume = s.drive.volume)
    (hfaults : s'.drive.faults = s.drive.faults.tail) : S.Has clean c F s' := by
  refine ⟨hcache.trans h.cache, h.directory, ?_, ?_, hvolume ▸ h.site, hvolume ▸ h.content,
    hvolume ▸ h.shard⟩
  · rw [hfaults]
    exact h.truthful.tail
  · intro hclean
    rw [hfaults, h.faultless hclean, List.tail_nil]

theorem Has.not_clean (h : S.Has clean c F s) (hfaults : s.drive.faults ≠ []) : ¬ clean :=
  fun hclean => hfaults (h.faultless hclean)

theorem Has.modifyIndex (h : S.Has clean c F s) (f : DiskIndex → DiskIndex) :
    S.Has clean { c with index := f c.index } F
      { s with cache := { s.cache with index := f s.cache.index } } :=
  ⟨by rw [h.cache], h.directory, h.truthful, h.faultless, h.site, h.content, h.shard⟩

theorem ends_entryPath_bind {d e : String} (hd : IsDigest d) {f : String → DiskM α}
    (hf : Ends (S.Has clean c F) (f (filePath S.path d e)) Q E) :
    Ends (S.Has clean c F) (DiskCache.entryPathM d e >>= f) Q E := by
  refine ⟨fun s h => ?_⟩
  rw [run_bind_ok (run_entryPathM hd (h.cache ▸ h.directory) e)]
  exact hf.from_state s h

/-! ## Taking away -/

section Files

variable {d e : String} (hd : IsDigest d) (he : e ∈ endings)

include hd he

/-- A file that is to be taken away is gone, or it is there and the operation meets a fault. -/
theorem Has.removeFile (h : S.Has clean c F s) :
    let r := (FileM.removeFile (filePath S.path d e)).run s.drive
    (r.1 = .ok () ∨ r.1 = .error .notFound) ∧ S.Has clean c (F.drop d e) { s with drive := r.2 } ∨
      ∃ o, o ≠ .notFound ∧ r.1 = .error o ∧ ¬ clean ∧ S.Has clean c F { s with drive := r.2 } := by
  intro r
  obtain ⟨hfaults, hwrite⟩ :=
    FileM.writing_truthful (·.removeFile (filePath S.path d e)) h.truthful
  have hused : r.2.volume = s.drive.volume → S.Has clean c F { s with drive := r.2 } :=
    fun hvolume => h.used rfl hvolume hfaults
  rcases hwrite with ⟨v, hremove, hr, hv⟩ | ⟨hv, ⟨o, hremove, hr⟩ | ⟨hsome, o, ho, hr⟩⟩
  · have hchanged := h.site.removeFile hd he hremove
    have hvolume : r.2.volume = v := hv
    refine .inl ⟨.inl hr, h.cache, h.directory, ?_, ?_, ?_, ?_, ?_⟩
    · change Truthful r.2.faults
      rw [show r.2.faults = s.drive.faults.tail from hfaults]
      exact h.truthful.tail
    · intro hclean
      change r.2.faults = []
      rw [show r.2.faults = s.drive.faults.tail from hfaults, h.faultless hclean, List.tail_nil]
    · change S.Site r.2.volume
      rw [hvolume]
      exact .stocked hchanged.stocked
    · intro d' e' hd'
      change S.fileAt r.2.volume d' e' = _
      rw [hvolume, hchanged.file d' e' hd', h.content d' e' hd']
      rfl
    · intro d' hshard
      change S.HasShard r.2.volume d'
      rw [hvolume]
      exact hchanged.shard d' (h.shard d' hshard)
  -- Nothing but a file can be at the path, so if it cannot be taken away nothing is there.
  · rcases hfile : S.fileAt s.drive.volume d e with _ | content
    · rw [h.site.removeFile_none hd he hfile] at hremove
      cases hremove
      rw [h.content d e hd] at hfile
      left
      rw [Files.drop_eq_self hfile]
      exact ⟨.inr hr, hused hv⟩
    · cases h.site with
      | missing hmissing =>
        rw [hmissing.fileAt] at hfile
        cases hfile
      | stocked hstocked =>
        obtain ⟨w, hremove', -⟩ := hstocked.removeFile hd he hfile
        rw [hremove] at hremove'
        cases hremove'
  · exact .inr ⟨o, ho, hr, h.not_clean hsome, hused hv⟩

/-- A file is taken away if it is there. -/
theorem ends_removeIfPresent :
    Ends (S.Has clean c F) (DiskCache.removeIfPresent (filePath S.path d e))
      (fun _ => S.Has clean c (F.drop d e))
      (fun err s => ¬ clean ∧ S.Has clean c F s ∧ ∃ o, err = .io (filePath S.path d e) o) := by
  refine Ends.bind (Q := fun r s =>
    (r = .ok () ∨ r = .error .notFound) ∧ S.Has clean c (F.drop d e) s ∨
      ∃ o, o ≠ .notFound ∧ r = .error o ∧ ¬ clean ∧ S.Has clean c F s)
    (.files fun s h => h.removeFile hd he) ?_
  intro r
  split
  · refine .pure ?_
    rintro s (⟨-, hgone⟩ | ⟨o, -, heq, -⟩)
    · exact hgone
    · cases heq
  · refine .pure ?_
    rintro s (⟨-, hgone⟩ | ⟨o, ho, heq, -⟩)
    · exact hgone
    · cases heq
      exact absurd rfl ho
  · next hne =>
    refine .throw ?_
    rintro s (⟨heq | heq, -⟩ | ⟨o, -, heq, hclean, hsame⟩)
    · cases heq
    · cases heq
      exact absurd rfl hne
    · cases heq
      exact ⟨hclean, hsame, _, rfl⟩

end Files

section Entry

variable {d : String} (hd : IsDigest d)

include hd

/-- Both files of an entry are taken away, or the value at most. -/
theorem ends_removeFiles :
    Ends (S.Has clean c F) (DiskCache.removeFiles d) (fun _ => S.Has clean c (F.without [d]))
      (fun err s => ¬ clean ∧ (S.Has clean c F s ∨ S.Has clean c (F.drop d valueEnding) s) ∧
        ∃ e ∈ [valueEnding, sidecarEnding], ∃ o, err = .io (filePath S.path d e) o) := by
  refine ends_entryPath_bind hd (.bind ((ends_removeIfPresent hd valueEnding_mem).imp
    (fun s h => h) (fun _ s h => h) ?_) fun _ => ends_entryPath_bind hd
      ((ends_removeIfPresent hd sidecarEnding_mem).imp (fun s h => h) ?_ ?_))
  · rintro err s ⟨hclean, hsame, o, rfl⟩
    exact ⟨hclean, .inl hsame, valueEnding, by simp, o, rfl⟩
  · intro _ s h
    rw [Files.drop_drop] at h
    exact h
  · rintro err s ⟨hclean, hgone, o, rfl⟩
    exact ⟨hclean, .inr hgone, sidecarEnding, by simp, o, rfl⟩

theorem ends_removeDigest :
    Ends (S.Has clean c F) (DiskCache.removeDigest d)
      (fun _ => S.Has clean { c with index := c.index.remove d } (F.without [d]))
      (fun err s => ¬ clean ∧ (S.Has clean { c with index := c.index.remove d } F s ∨
          S.Has clean { c with index := c.index.remove d } (F.drop d valueEnding) s) ∧
        ∃ e ∈ [valueEnding, sidecarEnding], ∃ o, err = .io (filePath S.path d e) o) :=
  .bind (.modifyIndex fun _ h => h.modifyIndex (·.remove d)) fun _ => ends_removeFiles hd

end Entry

/-! ## Reading -/

/-- Looking changes nothing and answers what there is, or meets a fault. -/
theorem Has.reading (h : S.Has clean c F s) {β : Type} (op : Volume → Except OsError β) :
    let r := (FileM.reading op).run s.drive
    S.Has clean c F { s with drive := r.2 } ∧
      (r.1 = op s.drive.volume ∨ ¬ clean ∧ ∃ o, o ≠ .notFound ∧ r.1 = .error o) := by
  intro r
  obtain ⟨hdrive, hanswer⟩ := FileM.reading_truthful op h.truthful
  have hvolume : ((CodeGraph.FileM.reading op).run s.drive).2.volume = s.drive.volume := by
    rw [hdrive]
  have hfaults : ((CodeGraph.FileM.reading op).run s.drive).2.faults = s.drive.faults.tail := by
    rw [hdrive]
  exact ⟨h.used rfl hvolume hfaults,
    hanswer.imp_right fun ⟨hsome, hfault⟩ => ⟨h.not_clean hsome, hfault⟩⟩

/-- What must be there is seen, or a fault is met. -/
theorem ends_look {β : Type} (op : Volume → Except OsError β)
    (hop : ∀ s, S.Has clean c F s → ∃ a, op s.drive.volume = .ok a) (path : String) :
    Ends (S.Has clean c F) (DiskM.file path (FileM.reading op))
      (fun a s => op s.drive.volume = .ok a ∧ S.Has clean c F s)
      (fun _ s => ¬ clean ∧ S.Has clean c F s) := by
  refine .file fun s h => ?_
  obtain ⟨hsame, hanswer⟩ := h.reading op
  obtain ⟨a, ha⟩ := hop s h
  rcases hanswer with hanswer | ⟨hclean, o, -, hanswer⟩
  · rw [hanswer, ha]
    refine ⟨?_, hsame⟩
    rw [FileM.reading_volume]
    exact ha
  · rw [hanswer]
    exact ⟨hclean, hsame⟩

theorem Has.readFile (h : S.Has clean c F s) {d e : String} (hd : IsDigest d) (he : e ∈ endings) :
    s.drive.volume.readFile (filePath S.path d e) =
      match F.content d e with
      | some bytes => .ok bytes
      | none => .error .notFound := by
  rw [← h.content d e hd]
  exact h.site.readFile_eq hd he

section Entry

variable {d : String} (hd : IsDigest d)

include hd

/-- The content of a file is read, or its absence noticed. -/
theorem ends_readFile {e : String} (he : e ∈ endings) :
    Ends (S.Has clean c F) (DiskM.files (FileM.readFile (filePath S.path d e)))
      (fun r s => S.Has clean c F s ∧
        ((∃ bytes, F.content d e = some bytes ∧ r = .ok bytes) ∨
          F.content d e = none ∧ r = .error .notFound ∨
          ¬ clean ∧ ∃ o, o ≠ .notFound ∧ r = .error o))
      (fun _ _ => False) := by
  refine .files fun s h => ?_
  obtain ⟨hsame, hanswer⟩ := h.reading (·.readFile (filePath S.path d e))
  refine ⟨hsame, ?_⟩
  rcases hanswer with hanswer | hfault
  · rw [h.readFile hd he] at hanswer
    rcases hcontent : F.content d e with _ | bytes
    · rw [hcontent] at hanswer
      exact .inr (.inl ⟨rfl, hanswer⟩)
    · rw [hcontent] at hanswer
      exact .inl ⟨bytes, rfl, hanswer⟩
  · exact .inr (.inr hfault)

/-- What is done with what is read ends as it does with the content of the file, with its absence, and
with a fault. -/
theorem ends_readFile_bind {α : Type} {e : String} (he : e ∈ endings)
    {f : Except OsError ByteArray → DiskM α} {Q : α → DiskState → Prop}
    {E : CacheError → DiskState → Prop}
    (hfound : ∀ bytes, F.content d e = some bytes → Ends (S.Has clean c F) (f (.ok bytes)) Q E)
    (hmissing : F.content d e = none → Ends (S.Has clean c F) (f (.error .notFound)) Q E)
    (hfault : ∀ o, o ≠ .notFound → ¬ clean → Ends (S.Has clean c F) (f (.error o)) Q E) :
    Ends (S.Has clean c F) (DiskM.files (FileM.readFile (filePath S.path d e)) >>= f) Q E := by
  refine Ends.bind ((ends_readFile hd he).imp_error fun _ _ h => h.elim) fun r => ⟨?_⟩
  rintro s ⟨h, ⟨bytes, hcontent, rfl⟩ | ⟨hnone, rfl⟩ | ⟨hclean, o, ho, rfl⟩⟩
  · exact (hfound bytes hcontent).from_state s h
  · exact (hmissing hnone).from_state s h
  · exact (hfault o ho hclean).from_state s h

/-- A sidecar is found to be what it is. -/
theorem ends_readSidecar :
    Ends (S.Has clean c F) (DiskCache.readSidecar (filePath S.path d sidecarEnding))
      (fun r s => r = F.sidecar d ∧ S.Has clean c F s)
      (fun _ s => ¬ clean ∧ S.Has clean c F s) := by
  refine ends_readFile_bind hd sidecarEnding_mem ?_ ?_ ?_
  · intro bytes hcontent
    simp only
    split
    all_goals
      next hdecode =>
      refine .pure fun s h => ⟨?_, h⟩
      rw [Files.sidecar, hcontent]
      simp only [hdecode]
  · intro hcontent
    refine .pure fun s h => ⟨?_, h⟩
    rw [Files.sidecar, hcontent]
  · intro o ho hclean
    split
    · next heq => cases heq
    · next heq =>
      cases heq
      exact absurd rfl ho
    · exact .throw fun s h => ⟨hclean, h⟩

end Entry

/-! ## Looking a value up -/

/-- A lookup answers the value of an entry whose sidecar can be read, is of the current version and
names the key. -/
theorem ends_get (key : String) :
    Ends (S.Has clean c F) (DiskCache.get key) (fun r _ => r = F.answer key)
      (fun _ _ => ¬ clean) := by
  have hd := isDigest_keyDigest key
  have hgone : F.answer key = none → Ends (S.Has clean c F)
      (do DiskCache.removeDigest (keyDigest key); return none) (fun r _ => r = F.answer key)
      (fun _ _ => ¬ clean) := fun hnone =>
    .bind ((ends_removeDigest hd).imp_error fun _ _ h => h.1)
      fun _ => .pure fun _ _ => hnone.symm
  unfold DiskCache.get
  dsimp only
  refine ends_entryPath_bind hd (.bind ((ends_readSidecar hd).imp_error
    fun _ _ h => h.1) fun r => .assume fun hr => ?_)
  have hanswer : F.answer key = match F.legible (keyDigest key) with
    | some m => if m.key = key then F.content (keyDigest key) valueEnding else none
    | none => none := rfl
  rw [Files.legible, ← hr] at hanswer
  split
  · exact .pure fun _ _ => hanswer.symm
  · exact hgone hanswer
  · next m =>
    simp only at hanswer
    split
    · next hversion =>
      rw [if_neg hversion] at hanswer
      exact hgone hanswer
    next hversion =>
    rw [if_pos (not_not.1 hversion)] at hanswer
    simp only at hanswer
    split
    · next hkey =>
      rw [if_neg hkey] at hanswer
      exact .pure fun _ _ => hanswer.symm
    next hkey =>
    rw [if_pos (not_not.1 hkey)] at hanswer
    refine ends_entryPath_bind hd (ends_readFile_bind hd valueEnding_mem ?_ ?_ ?_)
    · intro bytes hcontent
      exact .pure fun s _ => (hanswer.trans hcontent).symm
    · intro hnone
      exact hgone (hanswer.trans hnone)
    · intro o ho hclean
      split
      · next heq => cases heq
      · next heq =>
        cases heq
        exact absurd rfl ho
      · exact .throw fun _ _ => hclean

end Shelf

end CodeGraph.Cache
