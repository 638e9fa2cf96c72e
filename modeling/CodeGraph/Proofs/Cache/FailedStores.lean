import CodeGraph.Proofs.Cache.Breakdown
import CodeGraph.Proofs.Cache.Interrupted

/-!
# What stores leave that fail

After a store that fails, the other entries that are counted are counted as before and have their files
(`Undisturbed`). The entry of the key is another matter, and so are the entries that should have made
room for it. If the new entry could not be written it is not counted, but then neither is the old one,
whose sidecar is still there (`Unwritten`, `DiskCache.set_error_forgotten`). If the files of a victim
could not be taken away, the new entry is counted that has not been written, and the victim is not
(`Unevicted`).
-/

namespace CodeGraph.Cache

open DiskCache (valueEnding sidecarEnding shard? Runs)

/-- The entries that are counted, but for that of a key, are counted as before and have their files. -/
def Undisturbed (s s' : DiskState) (key : String) : Prop :=
  ∀ d i, d ≠ keyDigest key → s'.counted? d = some i → s.counted? d = some i ∧
    ∀ ending ∈ [valueEnding, sidecarEnding], s'.fileOf? d ending = s.fileOf? d ending

/-- The entry of a key has not been written. It is not counted, whatever is there of an older one, and
the entries that have made room for it are gone. -/
structure Unwritten (s s' : DiskState) (key : String) (content : ByteArray) : Prop where
  uncounted : s'.counted? (keyDigest key) = none
  sidecar : s'.fileOf? (keyDigest key) sidecarEnding = s.fileOf? (keyDigest key) sidecarEnding
  value : s'.fileOf? (keyDigest key) valueEnding = s.fileOf? (keyDigest key) valueEnding ∨
    s'.fileOf? (keyDigest key) valueEnding = some content
  gone : ∀ d, d ≠ keyDigest key → s.counted? d ≠ none → s'.counted? d = none →
    ∀ ending ∈ [valueEnding, sidecarEnding], s'.fileOf? d ending = none

/-- Room has not been made for the entry of a key. It is counted though nothing of it has been written,
and an entry is not counted any more whose sidecar is still there. -/
structure Unevicted (s s' : DiskState) (now : UInt64) (key : String) (content : ByteArray)
    (e : CacheError) : Prop where
  counted : s'.counted? (keyDigest key) = some ⟨key, now, UInt64.ofNat content.size⟩
  files : ∀ ending ∈ [valueEnding, sidecarEnding],
    s'.fileOf? (keyDigest key) ending = s.fileOf? (keyDigest key) ending
  victim : ∃ d, d ≠ keyDigest key ∧ s.counted? d ≠ none ∧ s'.counted? d = none ∧
    s'.fileOf? d sidecarEnding = s.fileOf? d sidecarEnding ∧
    ∃ ending ∈ [valueEnding, sidecarEnding], ∃ o,
      e = .io (s.cache.entryPath ((shard? d).getD "") d ending) o

namespace Shelf

variable {S : Shelf} {clean : Prop} {c : DiskCache} {F G : Files} {s s₁ s' : DiskState}
  {now : UInt64} {key : String} {content : ByteArray} {e : CacheError}

theorem Has.fileOf?_congr (h : S.Has clean c F s) {c' : DiskCache} (h' : S.Has clean c' G s')
    {d ending : String} (hd : IsDigest d) (hending : ending ∈ [valueEnding, sidecarEnding])
    (hsame : G.content d ending = F.content d ending) :
    s'.fileOf? d ending = s.fileOf? d ending := by
  rw [h.fileOf?_eq hd (mem_endings hending), h'.fileOf?_eq hd (mem_endings hending), hsame]

theorem Has.counted?_eq (h : S.Has clean c F s) (d : String) :
    s.counted? d = c.index.entries.get? d := by
  rw [DiskState.counted?, h.cache]

section Failed

variable (h : S.Has clean c F s) (hdigests : ∀ p ∈ c.index.entries.entries, IsDigest p.1)

include h hdigests

theorem Has.digest_of_counted? {d : String} {i : IndexedEntry} (hi : s.counted? d = some i) :
    IsDigest d := by
  rw [h.counted?_eq, NameMap.get?_eq_some_iff] at hi
  exact hdigests _ hi

theorem Has.undisturbed {c' : DiskCache} (h' : S.Has clean c' G s') {victims : List String}
    (hget : ∀ d, d ≠ keyDigest key →
      c'.index.entries.get? d = if d ∈ victims then none else c.index.entries.get? d)
    (hsame : ∀ d e, d ≠ keyDigest key → d ∉ victims → G.content d e = F.content d e) :
    Undisturbed s s' key := by
  intro d i hne hi
  rw [h'.counted?_eq, hget d hne] at hi
  split at hi
  · cases hi
  next hkept =>
  rw [← h.counted?_eq] at hi
  refine ⟨hi, fun ending hending => ?_⟩
  exact h.fileOf?_congr h' (h.digest_of_counted? hdigests hi) hending (hsame d ending hne hkept)

/-- The new entry has not been written, and the index is the one without it. -/
theorem Has.unwritten {c' : DiskCache} (h' : S.Has clean c' G s') {victims : List String}
    (hkey : keyDigest key ∉ victims)
    (hget : ∀ d, c'.index.entries.get? d = if d = keyDigest key then none
      else if d ∈ victims then none else c.index.entries.get? d)
    (hdrafted : (F.without victims).Drafted G (keyDigest key) content) :
    Undisturbed s s' key ∧ Unwritten s s' key content := by
  have hd := isDigest_keyDigest key
  have hget' : ∀ d, d ≠ keyDigest key →
      c'.index.entries.get? d = if d ∈ victims then none else c.index.entries.get? d := by
    intro d hne
    rw [hget, if_neg hne]
  refine ⟨h.undisturbed hdigests h' hget' fun d e hne hkept => ?_, ?_, ?_, ?_, ?_⟩
  · rw [hdrafted.others d e hne, F.content_without_of_not_mem hkept]
  · rw [h'.counted?_eq, hget, if_pos rfl]
  · refine h.fileOf?_congr h' hd (by simp) ?_
    rw [hdrafted.sidecar, F.content_without_of_not_mem hkey]
  · rcases hdrafted.value with hold | hnew
    · refine .inl (h.fileOf?_congr h' hd (by simp) ?_)
      rw [hold, F.content_without_of_not_mem hkey]
    · exact .inr ((h'.fileOf?_eq hd valueEnding_mem).trans hnew)
  · intro d hne hsome hgone ending hending
    obtain ⟨i, hi⟩ := Option.ne_none_iff_exists'.1 hsome
    rw [h'.counted?_eq, hget' d hne] at hgone
    split at hgone
    · next hvictim =>
      rw [h'.fileOf?_eq (h.digest_of_counted? hdigests hi) (mem_endings hending),
        hdrafted.others d ending hne]
      exact F.content_without_of_mem hvictim (by simpa using hending)
    · rw [← h.counted?_eq] at hgone
      exact absurd hgone hsome

theorem Has.unevicted {gone rest : List (String × IndexedEntry)} {v : String × IndexedEntry}
    {index : DiskIndex} {ending : String} {o : OsError}
    (hreserve : c.reserveFor now key content = some (gone ++ v :: rest, index))
    (hending : ending ∈ [valueEnding, sidecarEnding])
    (hleft : S.Has clean { c with index } (F.without (gone.map Prod.fst)) s' ∨
      S.Has clean { c with index } ((F.without (gone.map Prod.fst)).drop v.1 valueEnding) s') :
    Undisturbed s s' key ∧
      Unevicted s s' now key content (.io (filePath S.path v.1 ending) o) := by
  obtain ⟨hvictims, hnodup, hget⟩ := DiskIndex.reserve_spec hreserve
  rw [List.map_append, List.map_cons] at hnodup hget
  obtain ⟨G, h', hothers, hsidecar⟩ : ∃ G, S.Has clean { c with index } G s' ∧
      (∀ d e, d ∉ gone.map Prod.fst → d ≠ v.1 → G.content d e = F.content d e) ∧
      (v.1 ∉ gone.map Prod.fst → G.content v.1 sidecarEnding = F.content v.1 sidecarEnding) := by
    rcases hleft with h' | h'
    · exact ⟨_, h', fun d e hd _ => F.content_without_of_not_mem hd e,
        fun hv => F.content_without_of_not_mem hv _⟩
    · refine ⟨_, h', fun d e hd hne => ?_, fun hv => ?_⟩
      · rw [Files.content_drop_of_ne _ (.inl hne), F.content_without_of_not_mem hd]
      · rw [Files.content_drop_of_ne _ (.inr (by decide)), F.content_without_of_not_mem hv]
  obtain ⟨hvkey, hvcounted⟩ := hvictims v (by simp)
  rw [← h.counted?_eq] at hvcounted
  have hvdigest := h.digest_of_counted? hdigests hvcounted
  have hvgone : v.1 ∉ gone.map Prod.fst := fun hmem =>
    (List.nodup_append.1 hnodup).2.2 _ hmem v.1 (List.mem_cons_self ..) rfl
  have hkeygone : keyDigest key ∉ gone.map Prod.fst := by
    intro hmem
    have hkey := DiskCache.key_not_mem hreserve
    rw [List.map_append] at hkey
    exact hkey (List.mem_append_left _ hmem)
  refine ⟨h.undisturbed hdigests h' (fun d hne => (hget d).trans (if_neg hne)) ?_, ?_, ?_, v.1, hvkey,
    ?_, ?_, ?_, ending, hending, o, ?_⟩
  · intro d e _ hkept
    rw [List.mem_append, List.mem_cons] at hkept
    exact hothers d e (fun hd => hkept (.inl hd)) fun hd => hkept (.inr (.inl hd))
  · rw [h'.counted?_eq, hget, if_pos rfl]
  · intro ending hending
    exact h.fileOf?_congr h' (isDigest_keyDigest key) hending (hothers _ _ hkeygone hvkey.symm)
  · rw [hvcounted]
    exact Option.some_ne_none _
  · rw [h'.counted?_eq, hget, if_neg hvkey, if_pos (by simp)]
  · exact h.fileOf?_congr h' hvdigest (by simp) (hsidecar hvgone)
  · rw [hvdigest.shard?_eq, DiskCache.entryPath, h.cache, h.directory]
    rfl

/-- A failure after the index has been made is one of two kinds. -/
theorem Interrupted.failed (hset : S.Interrupted clean c F now key content (.error e) s') :
    Undisturbed s s' key ∧
      (Unwritten s s' key content ∨ Unevicted s s' now key content e) := by
  cases hset with
  | overflow hnone h' =>
    have hdrafted : (F.without []).Drafted F (keyDigest key) content := by
      rw [Files.without_nil]
      exact .refl F _ content
    obtain ⟨hothers, hunwritten⟩ := h.unwritten hdigests h' List.not_mem_nil (fun d => by
      rw [DiskIndex.get?_remove]
      simp) hdrafted
    exact ⟨hothers, .inl hunwritten⟩
  | @writing _ victims index G _ hreserve hdrafted h' =>
    obtain ⟨-, -, hget⟩ := DiskIndex.reserve_spec hreserve
    have hkey := DiskCache.key_not_mem hreserve
    obtain ⟨hothers, hunwritten⟩ := h.unwritten hdigests h' hkey (fun d => by
      rw [DiskIndex.get?_remove, hget]
      split
      · rfl
      · rfl) hdrafted
    exact ⟨hothers, .inl hunwritten⟩
  | evicting hreserve hending hleft =>
    obtain ⟨hothers, hunevicted⟩ := h.unevicted hdigests hreserve hending hleft
    exact ⟨hothers, .inr hunevicted⟩

end Failed

/-- What the directory holds when the index has been made. -/
theorem Ready.exists_has (h : S.Ready s) (htruthful : Truthful s.drive.faults)
    (hmade : DiskCache.ensureIndex.run.run s = (.ok (), s₁)) :
    ∃ F, S.Has False s₁.cache F s₁ := by
  have hhas := has_filesOf h.directory h.site htruthful (False.elim (C := s.drive.faults = []))
  rcases hseeded : s.cache.seeded with _ | _
  · obtain ⟨l, index, -, -, h₁⟩ :=
      (ends_ensureIndex hseeded).of_ok ⟨hhas, fun _ hshard => hshard⟩ hmade
    rw [← h₁.cache] at h₁
    exact ⟨_, h₁⟩
  · have h₁ := (ends_ensureIndex_seeded hseeded).of_ok hhas hmade
    rw [← h₁.cache] at h₁
    exact ⟨_, h₁⟩

end Shelf

namespace DiskCache

/-- **What is left when a store fails**, for whatever reason and at whatever step. If the index could not
be made, nothing is counted. Else the other entries that are counted are as they were, and the entry of
the key has not been written or a victim has not been taken away. -/
theorem set_error {settings : DiskSettings} {drive : Drive} {s s₁ s' : DiskState}
    {calls : List (DiskCall × Except CacheError DiskAnswer)} {faults : List (Option Fault)}
    {made : Except CacheError Unit} {now : UInt64} {key : String} {content : ByteArray}
    {e : CacheError} (horderly : Orderly drive.volume settings.directory)
    (hruns : Runs ⟨DiskCache.new settings, drive⟩ calls s) (htruthful : Truthful faults)
    (hmade : ensureIndex.run.run (s.facing faults) = (made, s₁))
    (hset : (set now key content).run.run (s.facing faults) = (.error e, s')) :
    (s' = s₁ ∧ ∀ d, s'.counted? d = none) ∨
      Undisturbed s₁ s' key ∧
        (Unwritten s₁ s' key content ∨ Unevicted s₁ s' now key content e) := by
  obtain ⟨S, hstart⟩ := horderly.exists_ready
  have hready := ((hstart.traced hruns).ready).facing faults
  -- A value that is too large is refused, which is no error.
  have hsize : ¬ (s.facing faults).cache.maxSize < UInt64.ofNat content.size := by
    intro hlarge
    rw [set_refused hlarge] at hset
    cases hset
  rcases made with err | ⟨⟩
  · left
    rw [set_unmade hsize hmade] at hset
    cases hset
    refine ⟨rfl, fun d => ?_⟩
    obtain ⟨v, settings', hsound⟩ := exists_sound hruns
    obtain ⟨⟨hunseeded, -⟩, hcache, -⟩ := spares_ensureIndex.of_error
      ⟨rfl, Volume.Sparser.refl (s.facing faults).drive.volume⟩ hmade
    rw [DiskState.counted?, hcache, (hsound.facing faults).counted.unmade hunseeded]
    rfl
  · right
    obtain ⟨F, h₁⟩ := hready.exists_has htruthful hmade
    have hdigests : ∀ p ∈ s₁.cache.index.entries.entries, IsDigest p.1 := by
      have hthins := (Shelf.thins_ensureIndex _ hready).1
      rw [hmade] at hthins
      exact hthins.ready.digests
    have hstored := Shelf.interrupted_set now key hsize hmade h₁ hdigests
    rw [hset] at hstored
    exact hstored.failed h₁ hdigests

/-- A store for which no room need be made fails when the directory of its entry cannot be made. -/
theorem run_set_of_fault {s : DiskState} {now : UInt64} {key : String} {content : ByteArray}
    {index : DiskIndex} (err : OsError) (hsize : ¬ s.cache.maxSize < UInt64.ofNat content.size)
    (hseeded : s.cache.seeded = true)
    (hreserve : s.cache.reserveFor now key content = some ([], index)) :
    ∃ path, (set now key content).run.run (s.facing [some ⟨err, none⟩]) =
      (.error (.io path err),
        ⟨{ s.cache with index := index.remove (keyDigest key) }, ⟨s.drive.volume, []⟩⟩) := by
  have hwrite : (writeEntry (keyDigest key) content (sidecarFor now key content)).run.run
      (DiskState.facing ⟨{ s.cache with index }, s.drive⟩ [some ⟨err, none⟩]) =
      (.error (.io (Path.join s.cache.directory ((shard? (keyDigest key)).getD "")) err),
        DiskState.facing ⟨{ s.cache with index }, s.drive⟩ []) := by
    rw [writeEntry, run_bind_ok (run_get _)]
    exact run_bind_error (DiskM.run_file_some ..)
  have hset : (set now key content).run.run (s.facing [some ⟨err, none⟩]) = _ :=
    run_set_of_room hseeded hsize hreserve hwrite
  exact ⟨_, hset⟩

/-- A value of one byte is stored in a cache of one byte. There is no space to store another one in its
place, and the first one is forgotten though its files are there. -/
theorem exists_forgotten : ∃ (s s' : DiskState) (e : CacheError),
    Runs ⟨DiskCache.new ⟨"cache", 1⟩, ⟨volumeOf "cache", []⟩⟩
      [(.set 1 "k" ⟨#[1]⟩, .ok (.stored true))] s ∧
    (∀ d, s.counted? d ≠ none → ∀ ending ∈ [valueEnding, sidecarEnding], s.fileOf? d ending ≠ none) ∧
    ensureIndex.run.run (s.facing [some ⟨.noSpace, none⟩]) =
      (.ok (), s.facing [some ⟨.noSpace, none⟩]) ∧
    (set 2 "k" ⟨#[2]⟩).run.run (s.facing [some ⟨.noSpace, none⟩]) = (.error e, s') ∧
    s.counted? (keyDigest "k") ≠ none ∧ s'.counted? (keyDigest "k") = none ∧
    s'.fileOf? (keyDigest "k") sidecarEnding ≠ none := by
  have hd := isDigest_keyDigest "k"
  obtain ⟨S, s, m, sc, hruns, haccounted, hm, -, hone, hseeded, hexact, hcounted, halone⟩ :=
    exists_byte 1 (by decide)
  have hsize : ¬ s.cache.maxSize < UInt64.ofNat (⟨#[2]⟩ : ByteArray).size := by
    rw [hone]
    decide
  obtain ⟨index, hreserve⟩ : ∃ index, s.cache.reserveFor 2 "k" ⟨#[2]⟩ = some ([], index) :=
    reserveFor_of_alone hexact halone hsize
  obtain ⟨path, hforgotten⟩ := run_set_of_fault .noSpace hsize hseeded hreserve
  have hthere : ∀ ending ∈ [valueEnding, sidecarEnding], s.fileOf? (keyDigest "k") ending ≠ none := by
    intro ending hending
    rw [S.fileOf?_eq haccounted.settled.directory haccounted.settled.site hd (mem_endings hending),
      haccounted.settled.file _ _ hd]
    exact Content.file_ne_none hm (by simpa using hending)
  refine ⟨s, _, _, hruns, ?_, ?_, hforgotten, ?_, ?_, ?_⟩
  · intro d hsome
    by_cases hne : d = keyDigest "k"
    · rw [hne]
      exact hthere
    · exact absurd (halone d hne) hsome
  · exact ensureIndex_of_seeded hseeded
  · rw [hcounted]
    exact Option.some_ne_none _
  · rw [DiskState.counted?, DiskIndex.get?_remove, if_pos rfl]
  · exact hthere sidecarEnding (by simp)

/-- What is left is the old entry, and nothing of the new one. -/
theorem set_error_unwritten : ∃ s s' : DiskState,
    s.counted? (keyDigest "k") ≠ none ∧ Undisturbed s s' "k" ∧ Unwritten s s' "k" ⟨#[2]⟩ := by
  have hfresh : Fresh (volumeOf "cache") "cache" :=
    fresh_volumeOf (by decide)
  have htruthful : Truthful [some ⟨.noSpace, none⟩] := by
    intro f hf
    obtain rfl : f = ⟨.noSpace, none⟩ := by simpa using hf
    decide
  obtain ⟨s, s', e, hruns, -, hmade, hset, hcounted, huncounted, -⟩ := exists_forgotten
  rcases set_error hfresh.orderly hruns htruthful hmade hset with
    ⟨rfl, -⟩ | ⟨hothers, hunwritten | hunevicted⟩
  · exact absurd huncounted hcounted
  · exact ⟨s.facing [some ⟨.noSpace, none⟩], s', hcounted, hothers, hunwritten⟩
  · rw [hunevicted.counted] at huncounted
    cases huncounted

/-- It is not so that after a store has failed its entry is counted only if it has been written, and
that every entry is counted whose sidecar is there. -/
theorem set_error_forgotten : ¬ ∀ (s s' : DiskState)
    (calls : List (DiskCall × Except CacheError DiskAnswer)) (faults : List (Option Fault))
    (now : UInt64) (key : String) (content : ByteArray) (e : CacheError),
    Runs ⟨DiskCache.new ⟨"cache", 1⟩, ⟨volumeOf "cache", []⟩⟩ calls s →
    (∀ d, s.counted? d ≠ none → ∀ ending ∈ [valueEnding, sidecarEnding],
      s.fileOf? d ending ≠ none) →
    (set now key content).run.run (s.facing faults) = (.error e, s') →
    (s'.counted? (keyDigest key) ≠ none →
      s'.fileOf? (keyDigest key) valueEnding = some content ∧
      s'.fileOf? (keyDigest key) sidecarEnding = some (sidecarFor now key content).encode) ∧
    ∀ other, s'.fileOf? (keyDigest other) sidecarEnding ≠ none →
      s'.counted? (keyDigest other) ≠ none := by
  intro hclaim
  obtain ⟨s, s', e, hruns, hfiles, -, hset, -, huncounted, hsidecar⟩ := exists_forgotten
  exact (hclaim s s' _ _ 2 "k" _ e hruns hfiles hset).2 "k" hsidecar huncounted

end DiskCache

end CodeGraph.Cache
