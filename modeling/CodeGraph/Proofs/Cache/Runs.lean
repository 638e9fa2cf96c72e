import CodeGraph.Proofs.Cache.Accounting
import CodeGraph.Proofs.Cache.Thinning
import CodeGraph.Proofs.Volume.Missing

/-!
# Runs in which calls fail

A run in which calls may fail is any sequence of calls, each facing faults of its own
(`DiskCache.Runs`). In a directory that holds nothing but files of entries (`Orderly`), every call
leaves such a directory, and each value that is there after a run was there before or has been offered
since under a key of its digest (`Shelf.Ready.traced`).
-/

namespace CodeGraph.Cache

open DiskCache (valueEnding sidecarEnding)

/-- A disk layer whose next operations on files meet the given faults. -/
def DiskState.facing (s : DiskState) (faults : List (Option Fault)) : DiskState :=
  { s with drive := { s.drive with faults } }

theorem DiskState.facing_nil {s : DiskState} (h : s.drive.faults = []) : s.facing [] = s := by
  rw [facing, ← h]

section Facing

variable {path : String} {write : Volume → Except OsError Volume} {torn : Nat → Volume → Volume}
  {short : Volume → Volume} {s s₁ : DiskState}

/-- What succeeds without faults does so when none is met, and leaves the faults to come. -/
theorem DiskM.run_file_none (hfaults : s.drive.faults = [])
    (hrun : (DiskM.file path (CodeGraph.FileM.writing write torn short)).run.run s = (.ok (), s₁))
    (faults : List (Option Fault)) :
    (DiskM.file path (CodeGraph.FileM.writing write torn short)).run.run (s.facing (none :: faults)) =
      (.ok (), s₁.facing faults) ∧ s₁.drive.faults = [] := by
  rw [DiskM.run_file, FileM.writing_faultless hfaults] at hrun
  rw [DiskM.run_file, FileM.run_writing]
  simp only [DiskState.facing, List.head?_cons, Option.join_some, List.tail_cons]
  rcases hwrite : write s.drive.volume with e | v
  · rw [hwrite] at hrun
    cases hrun
  · rw [hwrite] at hrun
    cases hrun
    exact ⟨rfl, rfl⟩

theorem DiskM.run_file_some (path : String) (write : Volume → Except OsError Volume)
    (torn : Nat → Volume → Volume) (short : Volume → Volume) (err : OsError) (s : DiskState) :
    (DiskM.file path (CodeGraph.FileM.writing write torn short)).run.run
        (s.facing [some ⟨err, none⟩]) =
      (.error (.io path err), s.facing []) := by
  rw [DiskM.run_file, FileM.run_writing]
  rfl

end Facing

/-- The content of a file of the entry of a digest. -/
def DiskState.fileOf? (s : DiskState) (digest ending : String) : Option ByteArray :=
  (s.drive.volume.readFile
    (s.cache.entryPath ((DiskCache.shard? digest).getD "") digest ending)).toOption

/-- What the index says of a digest. -/
def DiskState.counted? (s : DiskState) (digest : String) : Option IndexedEntry :=
  s.cache.index.entries.get? digest

/-- The runs of a disk layer with what each call has given. -/
inductive DiskCache.Runs (start : DiskState) :
    List (DiskCall × Except CacheError DiskAnswer) → DiskState → Prop
  | start : Runs start [] start
  | call {s s' : DiskState} {calls : List (DiskCall × Except CacheError DiskAnswer)}
      {call : DiskCall} {r : Except CacheError DiskAnswer} {faults : List (Option Fault)} :
      Runs start calls s → call.perform.run.run (s.facing faults) = (r, s') →
      Runs start (calls ++ [(call, r)]) s'

/-- A directory that holds nothing but files of entries, each in the directory of its digest, or is
missing and can be made. -/
def Orderly (v : Volume) (dir : String) : Prop :=
  ∃ S : Shelf, S.path = dir ∧ S.Site v

theorem Fresh.orderly {v : Volume} {dir : String} (h : Fresh v dir) : Orderly v dir := by
  obtain ⟨S, hpath, hsite, -⟩ := h.exists_shelf
  exact ⟨S, hpath, hsite⟩

namespace Shelf

variable {S : Shelf} {s s' : DiskState} {v : Volume}

theorem Ready.facing (h : S.Ready s) (faults : List (Option Fault)) :
    S.Ready (s.facing faults) :=
  ⟨h.directory, h.site, h.digests⟩

/-- The content of a file is what its path leads to. -/
theorem fileOf?_eq (hdir : s.cache.directory = S.path) (hsite : S.Site s.drive.volume)
    {d e : String} (hd : IsDigest d) (he : e ∈ endings) :
    s.fileOf? d e = S.fileAt s.drive.volume d e := by
  have hpath : s.cache.entryPath ((DiskCache.shard? d).getD "") d e = filePath S.path d e := by
    rw [DiskCache.entryPath, hdir, hd.shard?_eq]
    rfl
  rw [DiskState.fileOf?, hpath]
  rcases hread : s.drive.volume.readFile (filePath S.path d e) with err | content
  · rcases hfile : S.fileAt s.drive.volume d e with _ | content
    · rfl
    · cases hsite with
      | missing hmissing =>
        rw [hmissing.fileAt] at hfile
        cases hfile
      | stocked hstocked =>
        rw [hstocked.readFile hd he hfile] at hread
        cases hread
  · rw [hsite.readFile hd he hread]
    rfl

/-! ## Clearing -/

/-- Nothing but a directory is at the path of the directory of a digest. -/
theorem Site.linkMetadata_shard (h : S.Site v) {d : String} (hd : IsDigest d) {i : Item}
    (hi : v.linkMetadata (Path.join S.path (shardOf d)) = .ok i) :
    i = .directory ∧ S.Stocked v ∧ S.HasShard v d := by
  have hlen := shard_short (S := S) hd
  rw [Volume.linkMetadata] at hi
  rcases hfind : v.find false (Path.join S.path (shardOf d)) with err | ⟨q, j⟩
  all_goals
    rw [hfind] at hi
    cases hi
  cases h with
  | missing h =>
    have hground := Volume.find_within (Volume.within_makeDirs h.makeDirs) hfind
    rw [S.leads.find_join_missing hd.isPlain_shardOf hlen (S.bare _ (by simp))] at hground
    cases hground
  | stocked h =>
    rcases h.shard_none_or (d := d) with hnone | hshard
    · rw [h.leads.find_join_missing hd.isPlain_shardOf hlen hnone] at hfind
      cases hfind
    · rw [h.leads.find_join hd.isPlain_shardOf hlen hshard (by simp)] at hfind
      cases hfind
      exact ⟨rfl, h, hshard⟩

theorem thinner_of_within {w : Volume} (h : w.Within v) : S.Thinner v w := by
  intro d content _ hvalue
  have hitem : w.item? (S.place d valueEnding) = some (.file content) := by
    rw [fileAt] at hvalue
    split at hvalue
    · next hfile =>
      cases hvalue
      exact hfile
    · cases hvalue
  rw [fileAt, h.item _ _ hitem]

/-- The directory of a digest is taken away with the values in it. -/
theorem thins_removeTree {d : String} (hd : IsDigest d) :
    S.Thins (DiskM.file (Path.join S.path (shardOf d))
      (FileM.removeTree (Path.join S.path (shardOf d)))) := by
  refine .file _ fun D h => ?_
  rcases FileM.writing_cases (·.removeTree (Path.join S.path (shardOf d))) (fun _ v => v) D with
    ⟨w, hremove, -, hw⟩ | ⟨err, -, hw | ⟨n, hw⟩⟩
  · obtain ⟨i, hi⟩ : ∃ i, D.volume.linkMetadata (Path.join S.path (shardOf d)) = .ok i := by
      rw [Volume.linkMetadata]
      rw [Volume.removeTree] at hremove
      rcases hfind : D.volume.find false (Path.join S.path (shardOf d)) with err | ⟨q, i⟩
      · rw [hfind] at hremove
        cases hremove
      · exact ⟨i, rfl⟩
    obtain ⟨-, hstocked, hshard⟩ := h.linkMetadata_shard hd hi
    obtain ⟨w', hremove', hstocked', -⟩ := hstocked.removeShard hd hshard
    rw [hremove] at hremove'
    cases hremove'
    rw [FileM.removeTree, hw]
    exact ⟨.stocked hstocked', thinner_of_within (Volume.sparser_removeTree hremove).within,
      fun _ _ => trivial⟩
  · rw [FileM.removeTree, hw]
    exact ⟨h, .refl _, fun _ _ => trivial⟩
  · rw [FileM.removeTree, hw]
    exact ⟨h, .refl _, fun _ _ => trivial⟩

theorem thins_clearNames {names : List String}
    (hnames : ∀ n ∈ names, ∃ d, IsDigest d ∧ n = shardOf d) :
    S.Thins (DiskCache.clearNames S.path names) := by
  induction names with
  | nil => exact .pure trivial
  | cons n names ih =>
    obtain ⟨d, hd, rfl⟩ := hnames n (List.mem_cons_self ..)
    refine Thins.bind (P := fun kind => kind = .directory)
      (.file _ (reading _ fun v h kind hkind => (h.linkMetadata_shard hd hkind).1)) ?_
    rintro _ rfl
    simp only [Item.isDirectory, if_true]
    exact (thins_removeTree hd).bind fun _ _ => ih fun m hm => hnames m (List.mem_cons_of_mem _ hm)

theorem thins_clear : S.Thins DiskCache.clear := by
  refine .get_bind fun s hs => ?_
  rw [hs.directory]
  refine Thins.bind (P := fun r => ∀ names, r = .ok names →
    ∀ n ∈ names, ∃ d, IsDigest d ∧ n = shardOf d) (.files (reading _
      fun v h names hnames n hn => h.readDir hnames hn)) (fun r hr => ?_) s hs
  split
  · exact .pure trivial
  · exact .throw _
  · exact (thins_clearNames (hr _ rfl)).bind fun _ _ =>
      .modifyIndex fun _ _ hp => by cases hp

/-! ## Calls -/

/-- What a call may leave: a directory in order, and in it values that were there or that the call has
offered under a key of their digest. -/
structure Traced (S : Shelf) (s s' : DiskState) (calls : List DiskCall) : Prop where
  ready : S.Ready s'
  value : ∀ d content, IsDigest d → S.fileAt s'.drive.volume d valueEnding = some content →
    S.fileAt s.drive.volume d valueEnding = some content ∨
      ∃ call ∈ calls, ∃ key, call.offer? = some (key, content) ∧ keyDigest key = d

theorem Thinned.traced {calls : List DiskCall} (h : S.Thinned s s') : S.Traced s s' calls :=
  ⟨h.ready, fun d content hd hvalue => .inl (h.thinner d content hd hvalue)⟩

theorem Stored.traced {r : Except CacheError Bool} {call : DiskCall} {key : String}
    {content : ByteArray} (h : S.Stored s s' r (keyDigest key) content)
    (ho : call.offer? = some (key, content)) : S.Traced s s' [call] := by
  refine ⟨h.ready, ?_⟩
  intro d c hd hvalue
  rcases h.replaced.value d c hd hvalue with hold | ⟨rfl, rfl⟩
  · exact .inl hold
  · exact .inr ⟨call, List.mem_singleton_self call, key, ho, rfl⟩

theorem Ready.perform (h : S.Ready s) (call : DiskCall) :
    S.Traced s (call.perform.run.run s).2 [call] := by
  cases call with
  | set now key content =>
    rw [DiskCall.perform, run_bind_pure]
    exact (stored_set now key content s h).traced rfl
  | setJson now key value =>
    rw [DiskCall.perform, run_bind_pure]
    exact (stored_set now key _ s h).traced rfl
  | get key =>
    rw [DiskCall.perform, run_bind_pure]
    exact (thins_get key s h).1.traced
  | remove key =>
    have hthins : S.Thins (DiskCall.perform (.remove key)) :=
      (thins_removeDigest (isDigest_keyDigest key)).bind fun _ _ => .pure trivial
    exact (hthins s h).1.traced
  | clear =>
    have hthins : S.Thins (DiskCall.perform .clear) := thins_clear.bind fun _ _ => .pure trivial
    exact (hthins s h).1.traced
  | stats =>
    have hthins : S.Thins DiskCache.stats :=
      thins_ensureIndex.bind fun _ _ => .get_bind fun s hs => ⟨.refl hs, fun _ _ => trivial⟩
    rw [DiskCall.perform, run_bind_pure]
    exact (hthins s h).1.traced
  | reopen maxSize =>
    exact ⟨⟨h.directory, h.site, fun p hp => (by cases hp)⟩, fun _ _ _ hvalue => .inl hvalue⟩

theorem Traced.trans {s₁ s₂ s₃ : DiskState} {calls calls' : List DiskCall}
    (h : S.Traced s₁ s₂ calls) (h' : S.Traced s₂ s₃ calls') : S.Traced s₁ s₃ (calls ++ calls') := by
  refine ⟨h'.ready, ?_⟩
  intro d content hd hvalue
  rcases h'.value d content hd hvalue with hold | ⟨call, hcall, hoffer⟩
  · rcases h.value d content hd hold with hold | ⟨call, hcall, hoffer⟩
    · exact .inl hold
    · exact .inr ⟨call, List.mem_append_left _ hcall, hoffer⟩
  · exact .inr ⟨call, List.mem_append_right _ hcall, hoffer⟩

/-- Every value after a run was there before it or has been offered in it. -/
theorem Ready.traced {calls : List (DiskCall × Except CacheError DiskAnswer)} (h : S.Ready s)
    (hruns : DiskCache.Runs s calls s') : S.Traced s s' (calls.map Prod.fst) := by
  induction hruns with
  | start => exact ⟨h, fun _ _ _ hvalue => .inl hvalue⟩
  | @call s₁ s₂ calls call r faults _ hrun ih =>
    have hstep := (ih.ready.facing faults).perform call
    rw [hrun] at hstep
    rw [List.map_append]
    exact ih.trans ⟨hstep.ready, hstep.value⟩

end Shelf

/-- A new disk layer on an orderly directory is in order. -/
theorem Orderly.exists_ready {settings : DiskSettings} {drive : Drive}
    (h : Orderly drive.volume settings.directory) :
    ∃ S : Shelf, S.Ready ⟨DiskCache.new settings, drive⟩ := by
  obtain ⟨S, hpath, hsite⟩ := h
  exact ⟨S, hpath.symm, hsite, fun p hp => by cases hp⟩

/-- One byte that is stored in a directory that holds nothing is all that is there. -/
theorem DiskCache.exists_byte (maxSize : UInt64) (hsize : 1 ≤ maxSize.toNat) :
    ∃ (S : Shelf) (s : DiskState) (m : Content) (sc : Sidecar),
      Runs ⟨new ⟨"cache", maxSize⟩, ⟨volumeOf "cache", []⟩⟩
        [(.set 1 "k" ⟨#[1]⟩, .ok (.stored true))] s ∧
      S.Accounted s m ∧ m (keyDigest "k") = some (sc, ⟨#[1]⟩) ∧ sc.key = "k" ∧
      s.cache.maxSize = maxSize ∧ s.cache.seeded = true ∧ s.cache.index.Exact ∧
      s.counted? (keyDigest "k") = some sc.indexed ∧
      ∀ d, d ≠ keyDigest "k" → s.counted? d = none := by
  have hfresh : Fresh (volumeOf "cache") "cache" :=
    fresh_volumeOf (by decide)
  obtain ⟨S, -, hstart⟩ :=
    Shelf.exists_accounted_new ⟨"cache", maxSize⟩ ⟨volumeOf "cache", []⟩ hfresh rfl
  have hnone : DiskIndex.Fits (Content.indexed fun _ => none) 0 :=
    Content.fits (fun _ => 0) [] (fun _ _ hp => by cases hp) (Nat.zero_le _)
  obtain ⟨s, m, sc, hset, haccounted, hm, hkey, -, hmax, hseeded, hothers⟩ :=
    hstart.exists_stored 1 "k" ⟨#[1]⟩ hnone (by decide) hsize
  have hcall : (DiskCall.set 1 "k" ⟨#[1]⟩).perform.run.run
      (DiskState.facing ⟨new ⟨"cache", maxSize⟩, ⟨volumeOf "cache", []⟩⟩ []) =
      (.ok (.stored true), s) := run_bind_ok hset
  obtain ⟨hexact, hget⟩ := haccounted.settled.index hseeded
  refine ⟨S, s, m, sc, Runs.start.call hcall, haccounted, hm, hkey, hmax, hseeded, hexact, ?_, ?_⟩
  · rw [DiskState.counted?, hget, Content.indexed, hm]
    rfl
  · intro d hne
    have hnone := (hothers d hne).elim id id
    rw [DiskState.counted?, hget, Content.indexed, hnone]
    rfl

end CodeGraph.Cache
