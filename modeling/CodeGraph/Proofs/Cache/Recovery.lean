import CodeGraph.Proofs.Cache.Accounting
import CodeGraph.Proofs.Cache.Remnants

/-!
# Opening a directory after a store has been interrupted

A process may stop at any operation on a file of a store, and whatever is left can be opened anew. To
stop is to meet a fault, since a store that has failed leaves the files as they are. When the directory
is opened, the index is made, every entry that was not chosen to go reads as before, one that was reads
as before or is gone, and the key of the store reads as its old value, its new one or none. The sizes
are those of the values, with two exceptions. A value is written before its sidecar, so the new value
may be counted with the size of the old one (`DiskCache.recovers_stale`), and a value is taken away
before its sidecar, so a value may be counted that is gone (`DiskCache.recovers`).
-/

namespace CodeGraph.Cache

open DiskCache (valueEnding sidecarEnding sidecarFor)

namespace DiskState

/-- What the sidecar of a digest says. -/
def recorded? (s : DiskState) (digest : String) : Option IndexedEntry :=
  if IsDigest digest then
    ((s.fileOf? digest sidecarEnding).bind Sidecar.decode?).map Sidecar.indexed
  else none

/-- There are both files of an entry, and its sidecar gives the size of its value. -/
structure Stores (s : DiskState) (digest : String) (m : Sidecar) (content : ByteArray) : Prop where
  sidecar : (s.fileOf? digest sidecarEnding).bind Sidecar.decode? = some m
  version : m.version = Sidecar.currentVersion
  value : s.fileOf? digest valueEnding = some content
  size : m.size.toNat = content.size

/-- A directory in which every entry has both its files, the sizes of which a word can count, and an
index of it, if there is one. -/
structure Consistent (s : DiskState) : Prop where
  orderly : Orderly s.drive.volume s.cache.directory
  faultless : s.drive.faults = []
  whole : ∀ d, IsDigest d → ∀ ending ∈ [valueEnding, sidecarEnding], s.fileOf? d ending ≠ none →
    ∃ m content, s.Stores d m content
  total : DiskIndex.Fits s.recorded? (UInt64.size - 1)
  index : s.cache.seeded = true →
    s.cache.index.Exact ∧ ∀ d, s.counted? d = s.recorded? d

/-- The digests of the entries that a store chooses to go, for which the index must have been made. -/
def victimsFor (s : DiskState) (now : UInt64) (key : String) (content : ByteArray) : List String :=
  match DiskCache.ensureIndex.run.run s with
  | (.ok (), s₁) => s₁.cache.victimsFor now key content
  | (.error _, _) => []

end DiskState

namespace Shelf

variable {S : Shelf} {clean : Prop} {c : DiskCache} {F : Files} {s : DiskState}

theorem Has.sidecar_eq (h : S.Has clean c F s) {d : String} (hd : IsDigest d) (m : Sidecar) :
    (s.fileOf? d sidecarEnding).bind Sidecar.decode? = some m ↔ F.sidecar d = .found m := by
  rw [h.fileOf?_eq hd sidecarEnding_mem, Files.sidecar]
  rcases F.content d sidecarEnding with _ | bytes
  · simp
  · rcases hdecode : Sidecar.decode? bytes with _ | m'
    · simp [hdecode]
    · simp [hdecode]

end Shelf

/-- What a consistent directory holds. -/
structure Holding (S : Shelf) (s : DiskState) (F : Files) : Prop where
  has : S.Has True s.cache F s
  shards : ∀ d, S.HasShard s.drive.volume d → F.shard d
  whole : F.Whole
  indexed : ∀ d, F.indexed d = s.recorded? d

theorem DiskState.Consistent.holding {S : Shelf} {s : DiskState} (h : s.Consistent)
    (hdir : s.cache.directory = S.path) (hsite : S.Site s.drive.volume) :
    Holding S s (S.filesOf s.drive.volume) := by
  have hhas : S.Has True s.cache (S.filesOf s.drive.volume) s :=
    Shelf.has_filesOf hdir hsite (h.faultless ▸ truthful_nil) fun _ => h.faultless
  have hstores : ∀ d m value, IsDigest d → s.Stores d m value →
      (S.filesOf s.drive.volume).legible d = some m := by
    intro d m value hd hstores
    rw [Files.legible_eq_some_iff]
    exact ⟨(hhas.sidecar_eq hd m).1 hstores.sidecar, hstores.version⟩
  refine ⟨hhas, fun _ hshard => hshard, ?_, ?_⟩
  · intro d e he hsome
    have hd := (S.filesOf s.drive.volume).digest d e hsome
    have hending : e ∈ [valueEnding, sidecarEnding] := by simpa using he
    rw [← hhas.fileOf?_eq hd (mem_endings hending)] at hsome
    obtain ⟨m, value, hentry⟩ := h.whole d hd e hending hsome
    refine ⟨m, value, hstores d m value hd hentry, ?_, hentry.size⟩
    rw [← hhas.fileOf?_eq hd valueEnding_mem]
    exact hentry.value
  · intro d
    rw [DiskState.recorded?]
    split
    · next hd =>
      rcases hsidecar : (s.fileOf? d sidecarEnding).bind Sidecar.decode? with _ | m
      · rcases hlegible : (S.filesOf s.drive.volume).legible d with _ | m
        · simp only [Files.indexed, hlegible, Option.map_none]
        · rw [(hhas.sidecar_eq hd m).2 (Files.legible_eq_some_iff.1 hlegible).1] at hsidecar
          cases hsidecar
      · obtain ⟨bytes, hbytes, -⟩ := Option.bind_eq_some_iff.1 hsidecar
        obtain ⟨m', value, hentry⟩ := h.whole d hd sidecarEnding (by simp)
          (by rw [hbytes]; exact Option.some_ne_none _)
        obtain rfl := Option.some.inj (hentry.sidecar.symm.trans hsidecar)
        rw [Files.indexed, hstores d m' value hd hentry]
    · next hd =>
      rcases hlegible : (S.filesOf s.drive.volume).legible d with _ | m
      · rw [Files.indexed, hlegible]
        rfl
      · exact absurd (Files.digest_of_legible hlegible) hd

/-- What the accounts of a directory are kept of is consistent. -/
theorem Shelf.Accounted.consistent {S : Shelf} {s : DiskState} {m : Content}
    (h : S.Accounted s m) : s.Consistent := by
  have hfile : ∀ d ending, IsDigest d → ending ∈ [valueEnding, sidecarEnding] →
      s.fileOf? d ending = m.file d ending := by
    intro d ending hd hending
    rw [S.fileOf?_eq h.settled.directory h.settled.site hd (mem_endings hending)]
    exact h.settled.file d ending hd
  have hsidecar : ∀ d, IsDigest d →
      (s.fileOf? d sidecarEnding).bind Sidecar.decode? = (m d).map Prod.fst := by
    intro d hd
    have hne : sidecarEnding ≠ valueEnding := by decide
    rw [hfile d _ hd (by simp), Content.file, if_neg hne, if_pos rfl]
    rcases m d with _ | p
    · rfl
    · simp [Sidecar.decode?_encode]
  have hrecorded : s.recorded? = m.indexed := by
    funext d
    rw [DiskState.recorded?, Content.indexed]
    split
    · next hd =>
      rw [hsidecar d hd, Option.map_map]
      rfl
    · next hd =>
      rcases hp : m d with _ | p
      · rfl
      · exact absurd (h.settled.entry d p hp).1 hd
  refine ⟨⟨S, h.settled.directory.symm, h.settled.site⟩, h.settled.faultless, ?_, ?_, ?_⟩
  · intro d hd ending hending hsome
    rw [hfile d ending hd hending] at hsome
    rcases hp : m d with _ | p
    · rw [Content.file, hp] at hsome
      simp at hsome
    · refine ⟨p.1, p.2, ?_, (h.settled.entry d p hp).2, ?_, (h.own d p hp).2⟩
      · rw [hsidecar d hd, hp]
        rfl
      · rw [hfile d _ hd (by simp), Content.file, if_pos rfl, hp]
        rfl
  · rw [hrecorded]
    exact h.fits
  · intro hseeded
    obtain ⟨hexact, hget⟩ := h.settled.index hseeded
    refine ⟨hexact, fun d => ?_⟩
    rw [DiskState.counted?, hget, hrecorded]

/-- Every run without failures in a fresh directory leaves a consistent one. -/
theorem DiskCache.consistent_of_reaches {settings : DiskSettings} {drive : Drive} {s : DiskState}
    (hfresh : Fresh drive.volume settings.directory) (hfaults : drive.faults = [])
    (hreach : Reaches ⟨DiskCache.new settings, drive⟩ s) : s.Consistent := by
  obtain ⟨S, -, hstart⟩ := Shelf.exists_accounted_new settings drive hfresh hfaults
  obtain ⟨m, h⟩ := hstart.of_reaches hreach
  exact h.consistent

/-! ## What is left -/

namespace Holding

variable {S : Shelf} {F : Files} {s s₁ s' : DiskState} {faults : List (Option Fault)} {now : UInt64}
  {key : String} {content : ByteArray}

theorem facing (h : Holding S s F) (htruthful : Truthful faults) :
    S.Has False s.cache F (s.facing faults) :=
  ⟨rfl, h.has.directory, htruthful, False.elim, h.has.site, h.has.content, h.has.shard⟩

theorem fits (h : Holding S s F) (hs : s.Consistent) :
    DiskIndex.Fits F.indexed (UInt64.size - 1) := by
  have hindexed : F.indexed = s.recorded? := funext h.indexed
  rw [hindexed]
  exact hs.total

/-- No entry is touched when the index is made, whatever comes of it. -/
theorem ensureIndex (h : Holding S s F) (hs : s.Consistent) (htruthful : Truthful faults)
    {made : Except CacheError Unit}
    (hmade : DiskCache.ensureIndex.run.run (s.facing faults) = (made, s₁)) :
    ∃ G, S.Has False s₁.cache G s₁ ∧
      (∀ d e, e = valueEnding ∨ e = sidecarEnding → G.content d e = F.content d e) ∧
      (∀ d, G.indexed d = F.indexed d) ∧
      (made = .ok () → s₁.cache.index.Exact ∧ s₁.cache.maxSize = s.cache.maxSize ∧
        ∀ d, s₁.counted? d = F.indexed d) := by
  rcases hseeded : s.cache.seeded with _ | _
  · have hends := @Shelf.ends_ensureIndex S False s.cache F hseeded
    rcases made with err | ⟨⟩
    · rcases hends.of_error ⟨h.facing htruthful, h.shards⟩ hmade with
        ⟨l, hl, hnone, -⟩ | ⟨-, G, hG, hmending⟩
      · obtain ⟨x, hx, -⟩ := DiskIndex.exists_ofList? (h.fits hs) (by decide) hl
        rw [hx] at hnone
        cases hnone
      · rw [← hG.cache] at hG
        refine ⟨G, hG, fun d e he => h.whole.mending hmending he, fun d => ?_, fun hok => by cases hok⟩
        rw [Files.indexed, hmending.legible, Files.indexed]
    · obtain ⟨l, index, hl, hindex, h₁⟩ := hends.of_ok ⟨h.facing htruthful, h.shards⟩ hmade
      obtain ⟨x, hx, hexact, hget⟩ := DiskIndex.exists_ofList? (h.fits hs) (by decide) hl
      rw [hindex] at hx
      cases hx
      have hcache := h₁.cache
      rw [← hcache] at h₁
      refine ⟨_, h₁, fun d e he => h.whole.mended he, F.mended_indexed, fun _ => ?_⟩
      rw [hcache]
      refine ⟨hexact, rfl, fun d => ?_⟩
      rw [DiskState.counted?, hcache]
      exact hget d
  · have hfacing : (s.facing faults).cache.seeded = true := hseeded
    rw [DiskCache.ensureIndex_of_seeded hfacing] at hmade
    cases hmade
    obtain ⟨hexact, hcounted⟩ := hs.index hseeded
    exact ⟨F, h.facing htruthful, fun _ _ _ => rfl, fun _ => rfl,
      fun _ => ⟨hexact, rfl, fun d => (hcounted d).trans (h.indexed d).symm⟩⟩

/-- After a store, interrupted or not, the directory holds what `Files.Left` says. -/
theorem left (h : Holding S s F) (hs : s.Consistent) (htruthful : Truthful faults)
    {r : Except CacheError Bool}
    (hset : (DiskCache.set now key content).run.run (s.facing faults) = (r, s')) :
    ∃ G c', S.Has False c' G s' ∧
      F.Left G ((s.facing faults).victimsFor now key content) now key content ∧
      DiskIndex.Fits G.indexed (UInt64.size - 1) := by
  by_cases hsize : (s.facing faults).cache.maxSize < UInt64.ofNat content.size
  · rw [DiskCache.set_refused hsize] at hset
    cases hset
    exact ⟨F, _, h.facing htruthful, .of_same fun _ _ _ => rfl, h.fits hs⟩
  rcases hmade : DiskCache.ensureIndex.run.run (s.facing faults) with ⟨made, s₁⟩
  obtain ⟨G, hG, hsame, hindexed, hok⟩ := h.ensureIndex hs htruthful hmade
  have hfits : DiskIndex.Fits G.indexed (UInt64.size - 1) := by
    rw [funext hindexed]
    exact h.fits hs
  rcases made with err | ⟨⟩
  · rw [DiskCache.set_unmade hsize hmade] at hset
    cases hset
    exact ⟨G, _, hG, .of_same hsame, hfits⟩
  · obtain ⟨hexact, hmax, hget⟩ := hok rfl
    have hget' : ∀ d, s₁.cache.index.entries.get? d = G.indexed d :=
      fun d => (hget d).trans (hindexed d).symm
    have hdigests : ∀ p ∈ s₁.cache.index.entries.entries, IsDigest p.1 := by
      intro p hp
      have hp' := hget' p.1
      rw [NameMap.get?_eq_some_iff.2 hp] at hp'
      obtain ⟨m, hm, -⟩ := Option.map_eq_some_iff.1 hp'.symm
      exact Files.digest_of_legible hm
    have hstored := Shelf.interrupted_set now key hsize hmade hG hdigests
    rw [hset] at hstored
    obtain ⟨H, c', hH, hleft, hfits'⟩ := hstored.left hexact hget' hfits (by rw [hmax]; exact hsize)
    rw [DiskState.victimsFor, hmade]
    exact ⟨H, c', hH, hleft.congr hsame, hfits'⟩

end Holding

/-! ## What is opened -/

/-- What the size of an entry is that is counted: that of its value, or that of the old value of the key
whose new value stands there, or that of the value of a victim that is gone. -/
inductive Recounted (s s₂ : DiskState) (victims : List String) (key : String) (content : ByteArray)
    (d : String) (i : IndexedEntry) : Prop
  | whole {value : ByteArray} : s₂.fileOf? d valueEnding = some value → i.size.toNat = value.size →
      Recounted s s₂ victims key content d i
  | stale : d = keyDigest key → s₂.fileOf? d valueEnding = some content → s.recorded? d = some i →
      Recounted s s₂ victims key content d i
  | gone : d ∈ victims → s₂.fileOf? d valueEnding = none → s.recorded? d = some i →
      Recounted s s₂ victims key content d i

/-- What a key reads as: what it has read as before, or under the digest of the key that has been stored
its new value, or none there and for victims. -/
inductive Reread (s : DiskState) (victims : List String) (key : String) (content : ByteArray)
    (other : String) : Option ByteArray → Prop
  | same {r : Option ByteArray} {s' : DiskState} :
      (DiskCache.get other).run.run s = (.ok r, s') → Reread s victims key content other r
  | new : keyDigest other = keyDigest key → Reread s victims key content other (some content)
  | lost : keyDigest other = keyDigest key ∨ keyDigest other ∈ victims →
      Reread s victims key content other none

theorem Shelf.Has.exists_get {S : Shelf} {c : DiskCache} {F : Files} {s : DiskState}
    (h : S.Has True c F s) (key : String) :
    ∃ s', (DiskCache.get key).run.run s = (.ok (F.answer key), s') := by
  rcases hrun : (DiskCache.get key).run.run s with ⟨e | r, s'⟩
  · exact absurd trivial ((Shelf.ends_get key).of_error h hrun)
  · obtain rfl := (Shelf.ends_get key).of_ok h hrun
    exact ⟨s', rfl⟩

/-- **A directory can be opened after a store that was interrupted anywhere**, whatever faults it has
met: entries that were not chosen to go read as before, and the key reads as its old value, its new one
or none. Each size is that of the value, unless the new value stands beside the old sidecar or the value
of a victim is gone and its sidecar is not. -/
theorem DiskCache.recovers {s s' : DiskState} {faults : List (Option Fault)}
    {r : Except CacheError Bool} {now : UInt64} {key : String} {content : ByteArray}
    (h : s.Consistent) (htruthful : Truthful faults) (hlength : content.size < UInt64.size)
    (hset : (set now key content).run.run (s.facing faults) = (r, s')) (maxSize : UInt64) :
    ∃ s₂, ensureIndex.run.run ⟨DiskCache.new ⟨s.cache.directory, maxSize⟩, ⟨s'.drive.volume, []⟩⟩ =
        (.ok (), s₂) ∧
      (∀ d i, s₂.counted? d = some i →
        Recounted s s₂ ((s.facing faults).victimsFor now key content) key content d i) ∧
      ∀ other, ∃ found s₃, (get other).run.run s₂ = (.ok found, s₃) ∧
        Reread s ((s.facing faults).victimsFor now key content) key content other found := by
  obtain ⟨S, hpath, hsite⟩ := h.orderly
  obtain ⟨F, hF⟩ : ∃ F, Holding S s F := ⟨_, h.holding hpath.symm hsite⟩
  obtain ⟨G, c', hG, hleft, hfits⟩ := hF.left h htruthful hset
  obtain ⟨s₂, c₂, hrun, h₂, hcounted⟩ := hG.reopened hfits maxSize
  rw [hF.has.directory]
  refine ⟨s₂, hrun, fun d i hi => ?_, fun other => ?_⟩
  · rw [hcounted] at hi
    obtain ⟨m, hm, rfl⟩ := Option.map_eq_some_iff.1 hi
    have hvalue : s₂.fileOf? d valueEnding = G.content d valueEnding := by
      rw [h₂.fileOf?_eq (Files.digest_of_legible hm) valueEnding_mem, G.mended_content hm (.inl rfl)]
    have hrecorded : F.legible d = some m → s.recorded? d = some m.indexed := by
      intro hlegible
      rw [← hF.indexed, Files.indexed, hlegible]
      rfl
    rcases hleft.size hF.whole hlength hm with
      ⟨value, hthere, hsize⟩ | ⟨hkey, hthere, hold⟩ | ⟨hvictim, hgone, hold⟩
    · exact .whole (hvalue.trans hthere) hsize
    · exact .stale hkey (hvalue.trans hthere) (hrecorded hold)
    · exact .gone hvictim (hvalue.trans hgone) (hrecorded hold)
  · obtain ⟨s₃, hget⟩ := h₂.exists_get other
    obtain ⟨s₄, hbefore⟩ := hF.has.exists_get other
    rw [Files.mended_answer] at hget
    refine ⟨_, s₃, hget, ?_⟩
    rcases hleft.answer other with hsame | ⟨hkey, hnew | hnone⟩ | ⟨hvictim, hnone⟩
    · rw [hsame]
      exact .same hbefore
    · rw [hnew]
      exact .new hkey
    · rw [hnone]
      exact .lost (.inl hkey)
    · rw [hnone]
      exact .lost (.inr hvictim)

/-! ## A value that is counted with an old size -/

/-- A fault at the first operation on the sidecar leaves the new value beside the old sidecar. -/
theorem Shelf.run_writeEntry_stale {S : Shelf} {s s' : DiskState} {F : Files} {d : String}
    {content : ByteArray} {m : Sidecar} (h : S.Has True s.cache F s) (hd : IsDigest d)
    (hwrite : (DiskCache.writeEntry d content m).run.run s = (.ok (), s')) (err : OsError) :
    ∃ e s₃, (DiskCache.writeEntry d content m).run.run
        (s.facing [none, none, none, some ⟨err, none⟩]) = (.error e, s₃) ∧
      S.Has True s.cache ((F.opened d).written hd valueEnding content) s₃ := by
  have hshard : Path.join s.cache.directory ((DiskCache.shard? d).getD "") =
      Path.join S.path (shardOf d) := by
    rw [hd.shard?_eq, h.directory]
    rfl
  rw [DiskCache.writeEntry, run_bind_ok (run_get s), hshard] at hwrite
  obtain ⟨_, s₁, hmake, hwrite⟩ := exists_of_run_bind hwrite
  have h₁ := (Shelf.ends_makeDirs hd).of_ok h hmake
  have hdir₁ : s₁.cache.directory = S.path := h₁.cache ▸ h₁.directory
  rw [run_bind_ok (run_entryPathM hd hdir₁ _)] at hwrite
  obtain ⟨_, s₃, hvalue, -⟩ := exists_of_run_bind hwrite
  have h₃ := (Shelf.ends_writeWhole hd rfl valueEnding_mem (by decide) (by decide)).of_ok h₁ hvalue
  have hdir₃ : s₃.cache.directory = S.path := h₃.cache ▸ h₃.directory
  rw [DiskCache.writeWhole] at hvalue
  obtain ⟨_, s₂, hfile, hrename⟩ := exists_of_run_bind hvalue
  -- The first three operations meet no fault, and the fourth one does.
  obtain ⟨hmake', hfaults₁⟩ :=
    DiskM.run_file_none (h.faultless trivial) hmake [none, none, some ⟨err, none⟩]
  obtain ⟨hfile', hfaults₂⟩ := DiskM.run_file_none hfaults₁ hfile [none, some ⟨err, none⟩]
  obtain ⟨hrename', hfaults₃⟩ := DiskM.run_file_none hfaults₂ hrename [some ⟨err, none⟩]
  have hvalue' : (DiskCache.writeWhole (filePath S.path d valueEnding) content).run.run
      (s₁.facing [none, none, some ⟨err, none⟩]) = (.ok (), s₃.facing [some ⟨err, none⟩]) :=
    (run_bind_ok hfile').trans hrename'
  have hsidecar : (DiskCache.writeWhole (filePath S.path d sidecarEnding) m.encode).run.run
      (s₃.facing [some ⟨err, none⟩]) =
      (.error (.io (filePath S.path d sidecarEnding ++ DiskCache.unfinishedEnding) err), s₃) := by
    refine (run_bind_error (DiskM.run_file_some ..)).trans ?_
    rw [DiskState.facing_nil hfaults₃]
  have hshard' : Path.join (s.facing [none, none, none, some ⟨err, none⟩]).cache.directory
      ((DiskCache.shard? d).getD "") = Path.join S.path (shardOf d) := hshard
  have hdir₁' : (s₁.facing [none, none, some ⟨err, none⟩]).cache.directory = S.path := hdir₁
  have hdir₃' : (s₃.facing [some ⟨err, none⟩]).cache.directory = S.path := hdir₃
  refine ⟨.io (filePath S.path d sidecarEnding ++ DiskCache.unfinishedEnding) err, s₃, ?_, h₃⟩
  rw [DiskCache.writeEntry, run_bind_ok (run_get _), hshard']
  refine (run_bind_ok hmake').trans ?_
  rw [run_bind_ok (run_entryPathM hd hdir₁' _), run_bind_ok hvalue',
    run_bind_ok (run_entryPathM hd hdir₃' _), hsidecar]

theorem Shelf.Accounted.run_set_stale {S : Shelf} {s : DiskState} {m : Content} {now : UInt64}
    {key : String} {content : ByteArray} {index : DiskIndex} (h : S.Accounted s m)
    (hseeded : s.cache.seeded = true) (hsize : ¬ s.cache.maxSize < UInt64.ofNat content.size)
    (hreserve : s.cache.reserveFor now key content = some ([], index)) (err : OsError) :
    ∃ e s' c', (DiskCache.set now key content).run.run
        (s.facing [none, none, none, some ⟨err, none⟩]) = (.error e, s') ∧
      S.Has True c' (((S.filesOf s.drive.volume).opened (keyDigest key)).written
        (isDigest_keyDigest key) valueEnding content) s' := by
  have hd := isDigest_keyDigest key
  have hhas := (h.consistent.holding h.settled.directory h.settled.site).has.modifyIndex fun _ => index
  obtain ⟨v, hwrite, -⟩ := (h.settled.filed index).run_writeEntry hd content
    (show (sidecarFor now key content).version = Sidecar.currentVersion from rfl)
  obtain ⟨e, s₃, hstale, h₃⟩ := Shelf.run_writeEntry_stale hhas hd hwrite err
  exact ⟨e, _, _, DiskCache.run_set_of_room hseeded hsize hreserve hstale,
    h₃.modifyIndex (·.remove (keyDigest key))⟩

/-- When a directory is opened anew, the new value that has been left beside an old sidecar is counted
with the size of the old one. -/
theorem Shelf.Accounted.reopened_stale {S : Shelf} {s : DiskState} {m : Content} {now : UInt64}
    {key : String} {content : ByteArray} {index : DiskIndex} {p : Sidecar × ByteArray}
    (h : S.Accounted s m) (hp : m (keyDigest key) = some p) (hseeded : s.cache.seeded = true)
    (hsize : ¬ s.cache.maxSize < UInt64.ofNat content.size)
    (hreserve : s.cache.reserveFor now key content = some ([], index)) (err : OsError)
    (maxSize : UInt64) :
    ∃ e s' s₂, (DiskCache.set now key content).run.run
        (s.facing [none, none, none, some ⟨err, none⟩]) = (.error e, s') ∧
      DiskCache.ensureIndex.run.run
        ⟨DiskCache.new ⟨s.cache.directory, maxSize⟩, ⟨s'.drive.volume, []⟩⟩ = (.ok (), s₂) ∧
      s₂.counted? (keyDigest key) = some p.1.indexed ∧
      s₂.fileOf? (keyDigest key) valueEnding = some content := by
  have hd := isDigest_keyDigest key
  obtain ⟨F, hF⟩ : ∃ F, F = S.filesOf s.drive.volume := ⟨_, rfl⟩
  have hholding := h.consistent.holding h.settled.directory h.settled.site
  obtain ⟨e, s', c', hset, hhas⟩ := h.run_set_stale hseeded hsize hreserve err
  rw [← hF] at hholding hhas
  obtain ⟨G, hG⟩ : ∃ G, G = (F.opened (keyDigest key)).written hd valueEnding content := ⟨_, rfl⟩
  rw [← hG] at hhas
  -- The sidecars are the old ones, so they can be counted and say what they have said.
  have hlegible : ∀ d, G.legible d = F.legible d := by
    intro d
    refine Files.legible_congr ?_
    rw [hG, Files.content_written_of_ne _ hd _ (.inr (by decide))]
    rfl
  have hindexed : G.indexed = F.indexed := by
    funext d
    rw [Files.indexed, hlegible, Files.indexed]
  have hold : F.indexed (keyDigest key) = some p.1.indexed := by
    rw [hholding.indexed, ← (h.consistent.index hseeded).2, DiskState.counted?,
      (h.settled.index hseeded).2, Content.indexed, hp]
    rfl
  obtain ⟨sc, hsc, -⟩ := Option.map_eq_some_iff.1 hold
  obtain ⟨s₂, c₂, hrun, h₂, hcounted⟩ :=
    hhas.reopened (by rw [hindexed]; exact hholding.fits h.consistent) maxSize
  rw [← h.settled.directory] at hrun
  refine ⟨e, s', s₂, hset, hrun, ?_, ?_⟩
  · rw [hcounted, hindexed, hold]
  · rw [h₂.fileOf?_eq hd valueEnding_mem, G.mended_content ((hlegible _).trans hsc) (.inl rfl), hG,
      Files.content_written_self]

namespace DiskCache

/-- No fault while the directory and the value of an entry are written, then one. -/
def staleFaults : List (Option Fault) := [none, none, none, some ⟨.noSpace, none⟩]

theorem truthful_staleFaults : Truthful staleFaults := by
  intro f hf
  obtain rfl : f = ⟨.noSpace, none⟩ := by simpa [staleFaults] using hf
  decide

/-- A value of one byte is stored, and a store of five bytes is interrupted when the value has been
written and the sidecar has not. The directory that is left is opened anew, and the five bytes are
counted as one. -/
theorem exists_stale : ∃ (s s' s₂ : DiskState) (e : CacheError) (i : IndexedEntry),
    s.Consistent ∧ (s.facing staleFaults).victimsFor 2 "k" ⟨#[2, 2, 2, 2, 2]⟩ = [] ∧
    (set 2 "k" ⟨#[2, 2, 2, 2, 2]⟩).run.run (s.facing staleFaults) = (.error e, s') ∧
    ensureIndex.run.run ⟨DiskCache.new ⟨s.cache.directory, 100⟩, ⟨s'.drive.volume, []⟩⟩ =
      (.ok (), s₂) ∧
    s₂.counted? (keyDigest "k") = some i ∧ i.size.toNat = 1 ∧
    s₂.fileOf? (keyDigest "k") valueEnding = some ⟨#[2, 2, 2, 2, 2]⟩ := by
  obtain ⟨S, s, m, sc, -, haccounted, hm, -, hmax, hseeded, hexact, -, halone⟩ :=
    exists_byte 100 (by decide)
  have hsize : ¬ s.cache.maxSize < UInt64.ofNat (⟨#[2, 2, 2, 2, 2]⟩ : ByteArray).size := by
    rw [hmax]
    decide
  obtain ⟨index, hreserve⟩ :
      ∃ index, s.cache.reserveFor 2 "k" ⟨#[2, 2, 2, 2, 2]⟩ = some ([], index) :=
    reserveFor_of_alone hexact halone hsize
  have hvictims : (s.facing staleFaults).victimsFor 2 "k" ⟨#[2, 2, 2, 2, 2]⟩ = [] := by
    have hfacing : (s.facing staleFaults).cache.seeded = true := hseeded
    rw [DiskState.victimsFor, ensureIndex_of_seeded hfacing]
    exact victimsFor_eq hsize hreserve
  obtain ⟨e, s', s₂, hset, hrun, hcounted, hvalue⟩ :=
    haccounted.reopened_stale hm hseeded hsize hreserve .noSpace 100
  exact ⟨s, s', s₂, e, sc.indexed, haccounted.consistent, hvictims, hset, hrun, hcounted,
    (haccounted.own _ _ hm).2, hvalue⟩

/-- An interrupted store has left the new value beside the old sidecar, and is recovered from. -/
theorem recovers_interrupted : ∃ (s s' s₂ : DiskState) (e : CacheError) (i : IndexedEntry),
    (set 2 "k" ⟨#[2, 2, 2, 2, 2]⟩).run.run (s.facing staleFaults) = (.error e, s') ∧
    ensureIndex.run.run ⟨DiskCache.new ⟨s.cache.directory, 100⟩, ⟨s'.drive.volume, []⟩⟩ =
      (.ok (), s₂) ∧
    s₂.counted? (keyDigest "k") = some i ∧ i.size.toNat = 1 ∧
    s.recorded? (keyDigest "k") = some i ∧
    ∃ found s₃, (get "k").run.run s₂ = (.ok found, s₃) ∧
      Reread s [] "k" ⟨#[2, 2, 2, 2, 2]⟩ "k" found := by
  obtain ⟨s, s', s₂, e, i, hconsistent, hvictims, hset, hrun, hcounted, hsize, hvalue⟩ := exists_stale
  obtain ⟨s₂', hrun', hsizes, hanswers⟩ :=
    recovers hconsistent truthful_staleFaults (by decide) hset 100
  obtain rfl : s₂' = s₂ := by
    rw [hrun] at hrun'
    cases hrun'
    rfl
  rw [hvictims] at hsizes hanswers
  refine ⟨s, s', s₂', e, i, hset, hrun, hcounted, hsize, ?_, hanswers "k"⟩
  cases hsizes _ _ hcounted with
  | whole hthere hsame =>
    rw [hvalue] at hthere
    cases hthere
    rw [hsize] at hsame
    exact absurd hsame (by decide)
  | stale _ _ hold => exact hold
  | gone hvictim _ _ => cases hvictim

/-- It is not so that a directory that is opened anew after an interrupted store counts for every entry
the length of its value. -/
theorem recovers_stale : ¬ ∀ (s s' s₂ : DiskState) (faults : List (Option Fault))
    (r : Except CacheError Bool) (now : UInt64) (key : String) (content : ByteArray)
    (maxSize : UInt64), s.Consistent →
    (set now key content).run.run (s.facing faults) = (r, s') →
    ensureIndex.run.run ⟨DiskCache.new ⟨s.cache.directory, maxSize⟩, ⟨s'.drive.volume, []⟩⟩ =
      (.ok (), s₂) →
    ∀ d i, s₂.counted? d = some i →
      ∃ value, s₂.fileOf? d valueEnding = some value ∧ i.size.toNat = value.size := by
  intro hclaim
  obtain ⟨s, s', s₂, e, i, hconsistent, -, hset, hrun, hcounted, hsize, hvalue⟩ := exists_stale
  obtain ⟨value, hthere, hsame⟩ := hclaim s s' s₂ _ _ 2 "k" _ 100 hconsistent hset hrun _ i hcounted
  rw [hvalue] at hthere
  cases hthere
  rw [hsize] at hsame
  exact absurd hsame (by decide)

end DiskCache

end CodeGraph.Cache
