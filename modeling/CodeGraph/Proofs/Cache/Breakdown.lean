import CodeGraph.Proofs.Cache.AnyDirectory
import CodeGraph.Proofs.Cache.Index
import CodeGraph.Proofs.Cache.Runs

/-!
# What breaks the disk layer

The directory may hold anything, and any fault may be met. Then a call answers or fails for what an
operation on a file answers, with two exceptions, and both need a directory that the disk layer has not
written (`DiskCache.perform_error`). A sidecar whose name is too short to name a directory breaks a
call that goes after its files (`DiskCache.perform_error_junk`), and sizes in sidecars break a call when
they add up to more than a 64-bit word. Looking up, removing and clearing never break.

The sidecars that count are those of the directory as it was before the first call: the disk layer looks
for them once, and takes away but does not write before it does (`Sound`).
-/

namespace CodeGraph.Cache

open DiskCache (shard? sidecarEnding recordedIn Named Runs)

/-! ## Indexes of any sizes -/

namespace DiskIndex

variable {x : DiskIndex}

/-- Adding an entry fails only for a total that is no 64-bit word. -/
theorem insert_cases (h : x.Exact) (d : String) (e : IndexedEntry) :
    (∃ y, x.insert d e = some y ∧ y.Exact ∧ y.weight ≤ x.weight + e.size.toNat) ∨
      x.insert d e = none ∧ UInt64.size ≤ x.weight + e.size.toNat := by
  have hothers := weight_remove_le x d
  rcases hinsert : x.insert d e with _ | y
  · right
    refine ⟨rfl, ?_⟩
    by_contra hfits
    obtain ⟨y, hy⟩ := h.exists_insert (d := d) (e := e) (by omega)
    rw [hinsert] at hy
    cases hy
  · obtain ⟨hexact, hweight, -⟩ := insert_spec h hinsert
    exact .inl ⟨y, rfl, hexact, by omega⟩

theorem insertAll_cases (h : x.Exact) (l : List (String × IndexedEntry)) :
    (∃ y, l.foldlM (fun x e => x.insert e.1 e.2) x = some y ∧ y.Exact ∧
        y.weight ≤ x.weight + (l.map fun p => p.2.size.toNat).sum) ∨
      l.foldlM (fun x e => x.insert e.1 e.2) x = none ∧
        UInt64.size ≤ x.weight + (l.map fun p => p.2.size.toNat).sum := by
  induction l generalizing x with
  | nil => exact .inl ⟨x, rfl, h, Nat.le_refl _⟩
  | cons p l ih =>
    rw [List.foldlM_cons, List.map_cons, List.sum_cons]
    rcases insert_cases h p.1 p.2 with ⟨y, hinsert, hexact, hweight⟩ | ⟨hnone, hover⟩
    · rw [hinsert]
      rcases ih hexact with ⟨z, hz, hexact', hweight'⟩ | ⟨hnone, hover⟩
      · exact .inl ⟨z, hz, hexact', by omega⟩
      · exact .inr ⟨hnone, by omega⟩
    · rw [hnone]
      exact .inr ⟨rfl, by omega⟩

/-- An index is made of entries unless their sizes add up to more than a 64-bit word. -/
theorem ofList?_cases (l : List (String × IndexedEntry)) :
    (∃ x, ofList? l = some x ∧ x.Exact ∧ x.weight ≤ (l.map fun p => p.2.size.toNat).sum) ∨
      ofList? l = none ∧ UInt64.size ≤ (l.map fun p => p.2.size.toNat).sum := by
  have hcases := insertAll_cases exact_empty l
  have hempty : ({} : DiskIndex).weight = 0 := rfl
  rw [hempty, Nat.zero_add] at hcases
  exact hcases

end DiskIndex

/-! ## What can be counted -/

/-- The number of bytes that a call offers. -/
def DiskCall.offered (call : DiskCall) : Nat :=
  match call.offer? with
  | some (_, content) => content.size
  | none => 0

/-- Whether a call needs the index: it counts what is there or makes room in it. -/
def DiskCall.Counts (call : DiskCall) : Prop :=
  call = .stats ∨ call.offer? ≠ none

/-- What breaks a call: a name for a sidecar that gives no directory, and a total that is no 64-bit
word. -/
inductive Breaks (v : Volume) (settings : DiskSettings) (call : DiskCall) : CacheError → Prop
  | digest {d : String} : call.Counts → Named v settings.directory d → shard? d = none →
      Breaks v settings call (.noShard d)
  | total : call.Counts →
      UInt64.size ≤ max (recordedIn v settings.directory) settings.maxSize.toNat + call.offered →
      Breaks v settings call .overflow

/-- An index whose entries are from the directory or have been stored since. It has none before it has
been made. -/
structure Counted (v : Volume) (settings : DiskSettings) (c : DiskCache) : Prop where
  directory : c.directory = settings.directory
  unmade : c.seeded = false → c.index = {}
  maxSize : c.maxSize = settings.maxSize
  exact : c.index.Exact
  weight : c.index.weight ≤ max (recordedIn v settings.directory) settings.maxSize.toNat
  digest : ∀ p ∈ c.index.entries.entries, Named v settings.directory p.1 ∨ shard? p.1 ≠ none

/-- A disk layer that counts what it should and has put nothing in its directory before its index has
been made. -/
structure Sound (v : Volume) (settings : DiskSettings) (s : DiskState) : Prop where
  counted : Counted v settings s.cache
  unseeded : s.cache.seeded = false → s.drive.volume.Sparser v

variable {v w : Volume} {settings : DiskSettings} {c c' : DiskCache} {s : DiskState} {α : Type}

theorem Counted.remove (h : Counted v settings c) (d : String) :
    Counted v settings { c with index := c.index.remove d } :=
  ⟨h.directory, fun hunseeded => (by rw [h.unmade hunseeded]; rfl), h.maxSize, h.exact.remove d,
    Nat.le_trans (DiskIndex.weight_remove_le c.index d) h.weight,
    fun p hp => h.digest p (DiskIndex.mem_of_remove hp)⟩

theorem Counted.empty (h : Counted v settings c) :
    Counted v settings { c with index := {} } :=
  ⟨h.directory, fun _ => rfl, h.maxSize, DiskIndex.exact_empty, Nat.zero_le _,
    fun p hp => by cases hp⟩

theorem Counted.made (h : Counted v settings c) (hw : c.seeded = false → w = v)
    (hmade : Made w c c') : Counted v settings c' := by
  rcases hmade with ⟨-, rfl⟩ | ⟨hunseeded, l, index, hfound, hindex, rfl⟩
  · exact h
  · -- Nothing has been written yet, so the volume is the one that there was at first.
    obtain rfl := hw hunseeded
    rw [h.directory] at hfound
    rcases DiskIndex.ofList?_cases l with ⟨x, hx, hexact, hweight⟩ | ⟨hnone, -⟩
    · obtain rfl := Option.some.inj (hindex.symm.trans hx)
      refine ⟨h.directory, fun hunseeded => (by cases hunseeded), h.maxSize, hexact, ?_, ?_⟩
      · exact Nat.le_trans (Nat.le_trans hweight hfound.weight) (Nat.le_max_left ..)
      · exact fun p hp => .inl (hfound.digest p (DiskIndex.mem_of_ofList? hindex hp))
    · rw [hindex] at hnone
      cases hnone

theorem Counted.reserve (h : Counted v settings c) {now : UInt64} {key : String}
    {content : ByteArray} {victims : List (String × IndexedEntry)} {index : DiskIndex}
    (hseeded : c.seeded = true) (hsize : ¬ c.maxSize < UInt64.ofNat content.size)
    (hreserve : c.reserveFor now key content = some (victims, index)) :
    Counted v settings { c with index } := by
  have hkey := (isDigest_keyDigest key).shard?_eq
  rcases DiskIndex.reserve_cases (d := keyDigest key) (e := ⟨key, now, UInt64.ofNat content.size⟩)
    h.exact (UInt64.not_lt.1 hsize) with ⟨-, hnone⟩ | ⟨_, x, hsome, hexact, hweight, -, -⟩
  · rw [DiskCache.reserveFor, hnone] at hreserve
    cases hreserve
  · rw [DiskCache.reserveFor, hsome] at hreserve
    cases hreserve
    refine ⟨h.directory, fun hunseeded => ?_, h.maxSize, hexact, ?_, ?_⟩
    · cases hseeded.symm.trans hunseeded
    · rw [h.maxSize] at hweight
      exact Nat.le_trans hweight (Nat.le_max_right ..)
    · intro p hp
      rcases (DiskIndex.mem_of_reserve hsome).2 hp with rfl | hp
      · right
        simp [hkey]
      · exact h.digest p hp

theorem Spared.sound (h : Spared w c s) (hcounted : Counted v settings c)
    (hw : c.seeded = false → w = v) : Sound v settings s := by
  obtain ⟨rfl, hsparser⟩ := h
  exact ⟨hcounted, fun hunseeded => hw hunseeded ▸ hsparser⟩

/-- What a call does may be told from the volume at first or, once the index has been made, from the one
that it meets. -/
theorem ends_of_spared {op : DiskM α} {Q : α → DiskState → Prop} {E : CacheError → DiskState → Prop}
    (h : ∀ w c, Counted v settings c → (c.seeded = false → w = v) → Ends (Spared w c) op Q E) :
    Ends (Sound v settings) op Q E := by
  refine ⟨fun s hs => ?_⟩
  rcases hseeded : s.cache.seeded with _ | _
  · exact (h v s.cache hs.counted fun _ => rfl).from_state s ⟨rfl, hs.unseeded hseeded⟩
  · refine (h s.drive.volume s.cache hs.counted fun hunseeded => ?_).from_state s ⟨rfl, .refl _⟩
    rw [hseeded] at hunseeded
    cases hunseeded

/-! ## Calls -/

theorem Fails.isIo_of_key {key : String} {e : CacheError} (h : Fails (· = keyDigest key) e) :
    e.IsIo := by
  rcases h with hio | ⟨d, rfl, -, hnone⟩
  · exact hio
  · rw [(isDigest_keyDigest key).shard?_eq] at hnone
    cases hnone

theorem Fails.breaks {digests : String → Prop} {call : DiskCall} {e : CacheError}
    (h : Fails digests e) (hcall : call.Counts)
    (hdigests : ∀ d, digests d → Named v settings.directory d ∨ shard? d ≠ none) :
    e.IsIo ∨ Breaks v settings call e := by
  rcases h with hio | ⟨d, hd, rfl, hnone⟩
  · exact .inl hio
  · exact .inr (.digest hcall ((hdigests d hd).resolve_right fun hsome => hsome hnone) hnone)

theorem Counted.breaks (h : Counted v settings c) (hw : c.seeded = false → w = v)
    {call : DiskCall} (hcall : call.Counts) {e : CacheError} (hunmade : Unmade w c e) :
    e.IsIo ∨ Breaks v settings call e := by
  obtain ⟨hunseeded, hfails⟩ := hunmade
  obtain rfl := hw hunseeded
  rw [h.directory] at hfails
  rcases hfails with hfails | ⟨rfl, l, hfound, hnone⟩
  · exact hfails.breaks hcall fun d hd => .inl hd
  · rcases DiskIndex.ofList?_cases l with ⟨x, hx, -⟩ | ⟨-, hover⟩
    · rw [hx] at hnone
      cases hnone
    · refine .inr (.total hcall ?_)
      have hweight := hfound.weight
      omega

/-- A store that breaks off once the index has been made. -/
theorem Counted.storeFails (h : Counted v settings c) (hseeded : c.seeded = true)
    {call : DiskCall} {now : UInt64} {key : String} {content : ByteArray} {e : CacheError}
    (ho : call.offer? = some (key, content))
    (hsize : ¬ c.maxSize < UInt64.ofNat content.size)
    (hfails : StoreFails c now key content e c') :
    (e.IsIo ∨ Breaks v settings call e) ∧ Counted v settings c' := by
  have hcall : call.Counts := .inr (by rw [ho]; exact Option.some_ne_none _)
  have hoffered : call.offered = content.size := by rw [DiskCall.offered, ho]
  rcases hfails with ⟨hnone, rfl, rfl⟩ | ⟨victims, index, hreserve, hafter⟩
  · refine ⟨.inr (.total hcall ?_), h.remove _⟩
    rw [hoffered]
    rcases DiskIndex.reserve_cases (d := keyDigest key)
      (e := ⟨key, now, UInt64.ofNat content.size⟩) h.exact (UInt64.not_lt.1 hsize) with
      ⟨hover, -⟩ | ⟨victims, x, hsome, -⟩
    · have hothers := DiskIndex.weight_remove_le c.index (keyDigest key)
      have hweight := h.weight
      have hword : (UInt64.ofNat content.size).toNat ≤ content.size := by
        rw [UInt64.toNat_ofNat']
        exact Nat.mod_le ..
      simp only at hover
      omega
    · rw [DiskCache.reserveFor, hsome] at hnone
      cases hnone
  · have hcounted := h.reserve hseeded hsize hreserve
    rcases hafter with ⟨hvictims, rfl⟩ | ⟨hio, rfl⟩
    · refine ⟨hvictims.breaks hcall ?_, hcounted⟩
      intro d hd
      obtain ⟨p, hp, rfl⟩ := List.mem_map.1 hd
      exact h.digest p ((DiskIndex.mem_of_reserve hreserve).1 hp)
    · exact ⟨.inl hio, hcounted.remove _⟩

theorem ends_store {call : DiskCall} {key : String} {content : ByteArray}
    (ho : call.offer? = some (key, content)) (now : UInt64) :
    Ends (Sound v settings) (DiskCache.set now key content) (fun _ => Sound v settings)
      (fun e s => (e.IsIo ∨ Breaks v settings call e) ∧ Sound v settings s) := by
  have hcall : call.Counts := .inr (by rw [ho]; exact Option.some_ne_none _)
  refine ends_of_spared fun w c h hw => (ends_set now key content).imp (fun _ hs => hs) ?_ ?_
  · rintro kept s (⟨-, hsame⟩ | ⟨-, c', victims, index, hmade, hsize, hreserve, hcache⟩)
    · exact hsame.sound h hw
    · rcases s with ⟨cache, drive⟩
      obtain rfl : cache = _ := hcache
      refine ⟨(h.made hw hmade).reserve hmade.seeded hsize hreserve, fun hunseeded => ?_⟩
      cases hmade.seeded.symm.trans hunseeded
  · rintro e s (⟨hunmade, hsame⟩ | ⟨c', hmade, hsize, hfails⟩)
    · exact ⟨h.breaks hw hcall hunmade, hsame.sound h hw⟩
    · obtain ⟨hbreaks, hcounted⟩ := (h.made hw hmade).storeFails hmade.seeded ho hsize hfails
      refine ⟨hbreaks, hcounted, fun hunseeded => ?_⟩
      cases (hfails.seeded.trans hmade.seeded).symm.trans hunseeded

/-- A call keeps the disk layer sound, and what it may fail for is known. -/
theorem ends_perform (call : DiskCall) (hcall : ∀ n, call ≠ .reopen n) :
    Ends (Sound v settings) call.perform (fun _ => Sound v settings)
      (fun e s => (e.IsIo ∨ Breaks v settings call e) ∧ Sound v settings s) := by
  cases call with
  | set now key content =>
    exact .bind (ends_store rfl now) fun _ => .pure fun _ h => h
  | setJson now key value =>
    exact .bind (ends_store rfl now) fun _ => .pure fun _ h => h
  | get key =>
    have hafter : ∀ {w c s}, Counted v settings c → (c.seeded = false → w = v) →
        Spared w c s ∨ Spared w { c with index := c.index.remove (keyDigest key) } s →
        Sound v settings s := by
      rintro w c s h hw (hsame | hgone)
      · exact hsame.sound h hw
      · exact hgone.sound (h.remove _) hw
    refine .bind (ends_of_spared fun w c h hw => (spares_get key).imp (fun _ hs => hs) ?_ ?_)
      fun _ => .pure fun _ h => h
    · exact fun _ s hs => hafter h hw hs
    · exact fun e s hs => ⟨.inl hs.1.isIo_of_key, hafter h hw hs.2⟩
  | remove key =>
    refine .bind (ends_of_spared fun w c h hw => (spares_removeDigest (keyDigest key)).imp
      (fun _ hs => hs) ?_ ?_) fun _ => .pure fun _ h => h
    · exact fun _ s hs => hs.sound (h.remove _) hw
    · exact fun e s hs => ⟨.inl hs.1.isIo_of_key, hs.2.sound (h.remove _) hw⟩
  | clear =>
    refine .bind (ends_of_spared fun w c h hw => spares_clear.imp (fun _ hs => hs) ?_ ?_)
      fun _ => .pure fun _ h => h
    · rintro _ s (hsame | hgone)
      · exact hsame.sound h hw
      · exact hgone.sound h.empty hw
    · exact fun e s hs => ⟨.inl hs.1, hs.2.sound h hw⟩
  | stats =>
    have hindex : Ends (Sound v settings) DiskCache.ensureIndex (fun _ => Sound v settings)
        (fun e s => (e.IsIo ∨ Breaks v settings .stats e) ∧ Sound v settings s) := by
      refine ends_of_spared fun w c h hw => spares_ensureIndex.imp (fun _ hs => hs) ?_ ?_
      · rintro _ s ⟨c', hmade, hs⟩
        refine hs.sound (h.made hw hmade) fun hunseeded => ?_
        cases hmade.seeded.symm.trans hunseeded
      · exact fun e s hs => ⟨h.breaks hw (.inl rfl) hs.1, hs.2.sound h hw⟩
    refine .bind (.bind hindex fun _ => .get_bind fun s hs => .pure ?_) fun _ => .pure fun _ h => h
    rintro s rfl
    exact hs
  | reopen n => exact absurd rfl (hcall n)

theorem sound_new (settings : DiskSettings) (drive : Drive) :
    Sound drive.volume settings ⟨DiskCache.new settings, drive⟩ :=
  ⟨⟨rfl, fun _ => rfl, rfl, DiskIndex.exact_empty, Nat.zero_le _, fun p hp => by cases hp⟩,
    fun _ => .refl _⟩

theorem Sound.facing (h : Sound v settings s) (faults : List (Option Fault)) :
    Sound v settings (s.facing faults) :=
  ⟨h.counted, h.unseeded⟩

theorem Sound.perform (h : Sound v settings s) {call : DiskCall} (hcall : ∀ n, call ≠ .reopen n) :
    Sound v settings (call.perform.run.run s).2 := by
  rcases hrun : call.perform.run.run s with ⟨e | answer, s'⟩
  · exact ((ends_perform call hcall).of_error h hrun).2
  · exact (ends_perform call hcall).of_ok h hrun

theorem sound_of_runs {drive : Drive} {calls : List (DiskCall × Except CacheError DiskAnswer)}
    (hruns : Runs ⟨DiskCache.new settings, drive⟩ calls s)
    (hcalls : ∀ c ∈ calls, ∀ n, c.1 ≠ .reopen n) : Sound drive.volume settings s := by
  induction hruns with
  | start => exact sound_new settings drive
  | @call s₁ s₂ calls call r faults _ hrun ih =>
    have h := ih fun c hc => hcalls c (List.mem_append_left _ hc)
    have hcall := hcalls (call, r) (List.mem_append_right _ (List.mem_singleton_self _))
    have hstep := (h.facing faults).perform hcall
    rw [hrun] at hstep
    exact hstep

/-- After any calls a disk layer is sound for the directory that it began with, or for the one that has
been opened anew since. -/
theorem exists_sound {drive : Drive} {calls : List (DiskCall × Except CacheError DiskAnswer)}
    (hruns : Runs ⟨DiskCache.new settings, drive⟩ calls s) :
    ∃ v settings', Sound v settings' s := by
  induction hruns with
  | start => exact ⟨_, _, sound_new settings drive⟩
  | @call s₁ s₂ calls call r faults _ hrun ih =>
    obtain ⟨v, settings', h⟩ := ih
    by_cases hreopen : ∃ n, call = .reopen n
    · obtain ⟨n, rfl⟩ := hreopen
      cases hrun
      exact ⟨_, _, sound_new ⟨s₁.cache.directory, n⟩ ⟨s₁.drive.volume, faults⟩⟩
    · have hstep := (h.facing faults).perform fun n hn => hreopen ⟨n, hn⟩
      rw [hrun] at hstep
      exact ⟨v, settings', hstep⟩

namespace DiskCache

/-- **What a call may fail for in any directory**, after any calls, whatever faults have been met. It is
what an operation on a file answers, or the call needs the index and something in the directory breaks
it: a name for a sidecar that gives no directory, or sizes in sidecars that are too much for a 64-bit
word. -/
theorem perform_error {settings : DiskSettings} {drive : Drive} {s s' : DiskState}
    {calls : List (DiskCall × Except CacheError DiskAnswer)} {call : DiskCall}
    {faults : List (Option Fault)} {e : CacheError}
    (hruns : Runs ⟨DiskCache.new settings, drive⟩ calls s)
    (hcalls : ∀ c ∈ calls, ∀ n, c.1 ≠ .reopen n)
    (hrun : call.perform.run.run (s.facing faults) = (.error e, s')) :
    e.IsIo ∨ Breaks drive.volume settings call e := by
  have h := (sound_of_runs hruns hcalls).facing faults
  by_cases hreopen : ∃ n, call = .reopen n
  · obtain ⟨n, rfl⟩ := hreopen
    cases hrun
  · exact ((ends_perform call fun n hn => hreopen ⟨n, hn⟩).of_error h hrun).1

section Unnamed

variable {s : DiskState} {n d : String} {names names' : List String} {bytes : ByteArray}
  (hfaults : s.drive.faults = []) (hdecode : Sidecar.decode? bytes = none) (hd : shard? d = none)

include hfaults hdecode hd

/-- A sidecar that cannot be read breaks a scan if its name gives no directory. -/
theorem run_scanName_unnamed {path : String} {all : List String}
    (hread : s.drive.volume.readFile (Path.join path (d ++ sidecarEnding)) = .ok bytes) :
    (scanName path all (d ++ sidecarEnding)).run.run s = (.error (.noShard d), s) := by
  have hfound : (readSidecar (Path.join path (d ++ sidecarEnding))).run.run s = (.ok .corrupt, s) := by
    rw [readSidecar, FileM.readFile, run_bind_ok (DiskM.run_files_reading hfaults _), hread]
    simp only [hdecode]
    rfl
  have hpath : (entryPathM d valueEnding).run.run s = (.error (.noShard d), s) := by
    rw [entryPathM, hd]
    rfl
  rw [scanName_sidecar, run_bind_ok hfound]
  exact run_bind_error (run_bind_error hpath)

theorem run_stats_unnamed (hunseeded : s.cache.seeded = false)
    (hlist : s.drive.volume.readDir s.cache.directory = .ok (n :: names))
    (hkind : s.drive.volume.linkMetadata (Path.join s.cache.directory n) = .ok .directory)
    (hnames : s.drive.volume.readDir (Path.join s.cache.directory n) =
      .ok ((d ++ sidecarEnding) :: names'))
    (hread : s.drive.volume.readFile
      (Path.join (Path.join s.cache.directory n) (d ++ sidecarEnding)) = .ok bytes) :
    DiskCall.stats.perform.run.run s = (.error (.noShard d), s) := by
  have hshard : (scanShard (Path.join s.cache.directory n)).run.run s =
      (.error (.noShard d), s) := by
    rw [scanShard, run_bind_ok (DiskM.run_file_reading hfaults _ hkind)]
    simp only [Item.isDirectory, if_true]
    refine (run_bind_ok (DiskM.run_file_reading hfaults _ hnames)).trans ?_
    exact run_bind_error (run_scanName_unnamed hfaults hdecode hd hread)
  have hscan : scan.run.run s = (.error (.noShard d), s) := by
    rw [scan, run_bind_ok (run_get s)]
    refine (run_bind_ok (DiskM.run_files_reading hfaults _)).trans ?_
    rw [hlist]
    exact run_bind_error hshard
  have hindex : ensureIndex.run.run s = (.error (.noShard d), s) := by
    rw [ensureIndex, run_bind_ok (run_get s), hunseeded]
    exact run_bind_error hscan
  exact run_bind_error (run_bind_error hindex)

end Unnamed

/-- A directory with a file `x.meta.json` in a sub-directory. -/
def junkVolume : Volume :=
  ⟨[(["cache"], .directory), (["cache", "ab"], .directory),
    (["cache", "ab", "x.meta.json"], .file "junk".toUTF8)], []⟩

theorem run_stats_junk : DiskCall.stats.perform.run.run
    ⟨DiskCache.new ⟨"cache", 10⟩, ⟨junkVolume, []⟩⟩ =
      (.error (.noShard "x"), ⟨DiskCache.new ⟨"cache", 10⟩, ⟨junkVolume, []⟩⟩) := by
  have hcache : Path.IsPlain "cache" := by decide
  have hab : Path.IsPlain "ab" := by decide
  have hfile : Path.IsPlain "x.meta.json" := by decide
  have hleads : junkVolume.LeadsTo "cache" ["cache"] := Volume.leadsTo_name rfl hcache rfl
  have hsub : junkVolume.LeadsTo (Path.join "cache" "ab") ["cache", "ab"] :=
    hleads.join hab (by decide) rfl
  exact run_stats_unnamed rfl rfl (by decide) rfl hleads.readDir
    (hleads.linkMetadata_join hab (by decide) rfl (by simp)) hsub.readDir
    (hsub.readFile_join hfile (by decide) rfl)

/-- The failure is told by the directory. -/
theorem perform_error_stray : ∃ e s', DiskCall.stats.perform.run.run
    (DiskState.facing ⟨DiskCache.new ⟨"cache", 10⟩, ⟨junkVolume, []⟩⟩ []) = (.error e, s') ∧
      ¬ e.IsIo ∧ Breaks junkVolume ⟨"cache", 10⟩ .stats e := by
  have hrun := run_stats_junk
  have hio : ¬ (CacheError.noShard "x").IsIo := by
    rintro ⟨path, o, h⟩
    cases h
  have hfacing : DiskState.facing ⟨DiskCache.new ⟨"cache", 10⟩, ⟨junkVolume, []⟩⟩ [] =
      ⟨DiskCache.new ⟨"cache", 10⟩, ⟨junkVolume, []⟩⟩ := rfl
  rw [← hfacing] at hrun
  exact ⟨_, _, hrun, hio,
    (perform_error .start (fun c hc => by cases hc) hrun).resolve_left hio⟩

/-- It is not so that no call breaks in any directory. -/
theorem perform_error_junk : ¬ ∀ (settings : DiskSettings) (v : Volume) (s s' : DiskState)
    (calls : List (DiskCall × Except CacheError DiskAnswer)) (call : DiskCall) (e : CacheError),
    Runs ⟨DiskCache.new settings, ⟨v, []⟩⟩ calls s →
    call.perform.run.run s = (.error e, s') → e.isFatal = false := by
  intro hclaim
  have hfatal := hclaim ⟨"cache", 10⟩ junkVolume _ _ [] .stats _ .start run_stats_junk
  exact absurd hfatal (by decide)

end DiskCache

end CodeGraph.Cache
