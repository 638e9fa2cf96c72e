import CodeGraph.Proofs.Cache.Accounting
import CodeGraph.Proofs.Volume.Relisted

/-!
# Reopening the disk layer

A disk layer whose calls have all answered can be dropped and its directory opened anew with the same
budget: nobody can tell (`DiskCache.reopened_agrees`). The index that is made from the directory is the
one that has been kept, in whatever order the files are listed, and from there on the same calls give
the same answers and drop the same entries in the same order.

What carries this is the content (`Shelf.Alike`): two disk layers that stand for one content have the
same index as soon as both have one, and every call leaves them standing for one content again. So the
number of equal times, and whether times went backwards, do not matter.
-/

namespace CodeGraph.Cache

namespace DiskCall

/-- The time, the key and the value of a store. -/
def store? : DiskCall → Option (UInt64 × String × ByteArray)
  | .set now key content => some (now, key, content)
  | .setJson now key value => some (now, key, value.compact.toUTF8)
  | .get _ | .remove _ | .clear | .stats | .reopen _ => none

/-- The entries that a call drops for room, in the order in which their files are taken away. -/
def victims (call : DiskCall) (s : DiskState) : List (String × IndexedEntry) :=
  match call.store? with
  | none => []
  | some (now, key, content) =>
    if s.cache.maxSize < UInt64.ofNat content.size then []
    else
      match DiskCache.ensureIndex.run.run s with
      | (.ok _, s) =>
        ((s.cache.index.reserve (keyDigest key) ⟨key, now, UInt64.ofNat content.size⟩
          s.cache.maxSize).map Prod.fst).getD []
      | (.error _, _) => []

/-- The victims of a store are those whose files are taken away before the entry is written. -/
theorem run_set_of_victims {s s₁ : DiskState} {call : DiskCall} {now : UInt64} {key : String}
    {content : ByteArray} {victims : List (String × IndexedEntry)} {index : DiskIndex}
    (hstore : call.store? = some (now, key, content))
    (hsize : ¬ s.cache.maxSize < UInt64.ofNat content.size)
    (hensure : DiskCache.ensureIndex.run.run s = (.ok (), s₁))
    (hreserve : s₁.cache.index.reserve (keyDigest key)
      ⟨key, now, UInt64.ofNat content.size⟩ s₁.cache.maxSize = some (victims, index)) :
    (DiskCache.set now key content).run.run s =
      (do
        DiskCache.removeVictims (call.victims s)
        tryCatch (DiskCache.writeEntry (keyDigest key) content
          ⟨key, now, UInt64.ofNat content.size, Sidecar.currentVersion⟩) fun e => do
            DiskM.modifyIndex (·.remove (keyDigest key))
            throw e
        return true : DiskM Bool).run.run { s₁ with cache := { s₁.cache with index } } := by
  have hvictims : call.victims s = victims := by
    simp only [DiskCall.victims, hstore, if_neg hsize, hensure, hreserve, Option.map_some,
      Option.getD_some]
  rw [hvictims]
  exact DiskCache.run_set_of_reserve hsize hensure hreserve

end DiskCall

namespace DiskCache

/-- What calls answer in turn, each with the entries that it drops, up to a failure that ends the
program. -/
def trace : List DiskCall → DiskState →
    List (Except CacheError DiskAnswer × List (String × IndexedEntry))
  | [], _ => []
  | call :: calls, s =>
    match call.perform.run.run s with
    | (.ok answer, s') => (.ok answer, call.victims s) :: trace calls s'
    | (.error e, s') =>
      (.error e, call.victims s) :: if e.isFatal then [] else trace calls s'

/-- The runs of a disk layer that is never opened anew. -/
inductive Uses (start : DiskState) : DiskState → Prop
  | start : Uses start start
  | call {s s' : DiskState} {call : DiskCall} {answer : DiskAnswer} : Uses start s →
      call.Possible → (∀ maxSize, call ≠ .reopen maxSize) →
      call.perform.run.run s = (.ok answer, s') → Uses start s'

end DiskCache

namespace DiskIndex

/-- The entries of an index and its total are told by its lookups. -/
theorem eq_of_get? {x y : DiskIndex} (hx : x.Exact) (hy : y.Exact)
    (h : ∀ d, x.entries.get? d = y.entries.get? d) : x = y := by
  have hentries : x.entries = y.entries := NameMap.ext_get? h
  have htotal : x.totalSize = y.totalSize := by
    rw [← UInt64.toNat_inj, hx, hy, weight, weight, hentries]
  exact ext_entries hentries htotal

end DiskIndex

namespace Shelf

variable {S T : Shelf} {s t : DiskState} {m : Content}

theorem Settled.index_eq (hs : S.Settled s m) (ht : T.Settled t m)
    (hs' : s.cache.seeded = true) (ht' : t.cache.seeded = true) : t.cache.index = s.cache.index := by
  obtain ⟨hexact, hget⟩ := hs.index hs'
  obtain ⟨hexact', hget'⟩ := ht.index ht'
  refine DiskIndex.eq_of_get? hexact' hexact ?_
  intro d
  rw [hget, hget']

/-! ## Another order of listing -/

section Relisted

variable {v w : Volume}

theorem Stocked.relisted (h : S.Stocked v) (hw : v.Relisted w) : S.Stocked w := by
  refine ⟨h.within.trans hw.within, ?_, ?_⟩
  · intro r i hr hi
    rw [hw.item] at hi
    refine (h.known r i hr hi).mono ?_
    intro d hshard
    rw [HasShard, hw.item]
    exact hshard
  · exact (hw.children S.base).nodup_iff.2 h.listed

/-- A directory that can be made can be made in a volume that lists others differently. -/
theorem Makeable.relisted (h : S.Makeable v) (hw : v.Relisted w) :
    ∃ T : Shelf, T.path = S.path ∧ T.base = S.base ∧ T.Makeable w := by
  obtain ⟨ground, hmake, hground⟩ := hw.makeDirs h.makeDirs
  have hbare : ∀ r, r ≠ [] → ground.item? (S.base ++ r) = none := by
    intro r hr
    rw [hground.item]
    exact S.bare r hr
  exact ⟨⟨S.path, S.base, ground, hground.leadsTo S.leads, hbare, S.roomy⟩, rfl, rfl,
    hw.isTree h.tree, hw.readDir_error h.readDir, hmake⟩

theorem Site.relisted (h : S.Site v) (hw : v.Relisted w) :
    ∃ T : Shelf, T.path = S.path ∧ T.Site w ∧ ∀ d e, T.fileAt w d e = S.fileAt v d e := by
  cases h with
  | missing h =>
    obtain ⟨T, hpath, -, hT⟩ := h.relisted hw
    exact ⟨T, hpath, .missing hT, fun d e => by rw [hT.fileAt, h.fileAt]⟩
  | stocked h =>
    refine ⟨S, rfl, .stocked (h.relisted hw), ?_⟩
    intro d e
    rw [fileAt, fileAt, hw.item]

/-- A disk layer that has just opened a directory stands for the content of the one that filled it. -/
theorem Accounted.relisted (h : S.Accounted s m) {w : Volume} (hw : s.drive.volume.Relisted w)
    {settings : DiskSettings} (hdir : settings.directory = s.cache.directory) :
    ∃ T : Shelf, T.Accounted ⟨DiskCache.new settings, ⟨w, []⟩⟩ m := by
  obtain ⟨T, hpath, hsite, hfile⟩ := h.settled.site.relisted hw
  refine ⟨T, ⟨?_, rfl, hsite, ?_, h.settled.entry, ?_⟩, h.own, h.fits⟩
  · rw [hpath, ← h.settled.directory, ← hdir]
    rfl
  · intro d e hd
    rw [hfile]
    exact h.settled.file d e hd
  · intro hseeded
    cases hseeded

end Relisted

/-! ## Two disk layers of one content -/

/-- Two disk layers with one budget that stand for one content. -/
structure Alike (S T : Shelf) (m : Content) (s t : DiskState) : Prop where
  first : S.Accounted s m
  second : T.Accounted t m
  maxSize : t.cache.maxSize = s.cache.maxSize

namespace Alike

/-- As soon as both have an index it is the same. -/
theorem run_ensureIndex (h : Alike S T m s t) :
    ∃ s₁ t₁, DiskCache.ensureIndex.run.run s = (.ok (), s₁) ∧
      DiskCache.ensureIndex.run.run t = (.ok (), t₁) ∧ Alike S T m s₁ t₁ ∧
      s₁.cache.seeded = true ∧ t₁.cache.seeded = true ∧ t₁.cache.index = s₁.cache.index ∧
      s₁.cache.maxSize = s.cache.maxSize ∧ t₁.cache.maxSize = t.cache.maxSize := by
  obtain ⟨s₁, hs, h₁, hseeded, -, hmax⟩ := h.first.run_ensureIndex
  obtain ⟨t₁, ht, h₂, hseeded', -, hmax'⟩ := h.second.run_ensureIndex
  refine ⟨s₁, t₁, hs, ht, ⟨h₁, h₂, ?_⟩, hseeded, hseeded',
    h₁.settled.index_eq h₂.settled hseeded hseeded', hmax, hmax'⟩
  rw [hmax, hmax', h.maxSize]

/-- What a call does to both of them: it answers the same, drops the same, and leaves one content, unless it
ends both programs. -/
def Stays (call : DiskCall) (s t : DiskState) : Prop :=
  (call.perform.run.run t).1 = (call.perform.run.run s).1 ∧ call.victims t = call.victims s ∧
    ((∃ e, (call.perform.run.run s).1 = .error e ∧ e.isFatal = true) ∨
      ∃ S T m, Alike S T m (call.perform.run.run s).2 (call.perform.run.run t).2)

theorem stays_store (h : Alike S T m s t) {call : DiskCall} {now : UInt64} {key : String}
    {content : ByteArray} (hstore : call.store? = some (now, key, content))
    (hperform : call.perform = do return .stored (← DiskCache.set now key content))
    (hlength : content.size < UInt64.size) : Stays call s t := by
  by_cases hlarge : s.cache.maxSize < UInt64.ofNat content.size
  · have hlarge' : t.cache.maxSize < UInt64.ofNat content.size := by
      rw [h.maxSize]
      exact hlarge
    rw [Stays, hperform, run_bind_ok (DiskCache.set_refused hlarge),
      run_bind_ok (DiskCache.set_refused hlarge')]
    refine ⟨rfl, ?_, .inr ⟨S, T, m, h⟩⟩
    simp only [DiskCall.victims, hstore, if_pos hlarge, if_pos hlarge']
  obtain ⟨s₁, t₁, hs, ht, h₁, hseeded, hseeded', hindex, hmax, hmax'⟩ := h.run_ensureIndex
  have hlarge' : ¬ t.cache.maxSize < UInt64.ofNat content.size := by
    rw [h.maxSize]
    exact hlarge
  have hvictims : call.victims t = call.victims s := by
    simp only [DiskCall.victims, hstore, if_neg hlarge, if_neg hlarge', hs, ht, hindex, h₁.maxSize]
  rcases hreserve : s₁.cache.index.reserve (keyDigest key)
    ⟨key, now, UInt64.ofNat content.size⟩ s₁.cache.maxSize with _ | ⟨victims, index⟩
  · obtain ⟨s₂, hrun⟩ := DiskCache.run_set_overflow hlarge hs hreserve
    obtain ⟨t₂, hrun'⟩ := DiskCache.run_set_overflow hlarge' ht
      (by rw [hindex, h₁.maxSize]; exact hreserve)
    rw [Stays, hperform, run_bind_error hrun, run_bind_error hrun']
    exact ⟨rfl, hvictims, .inl ⟨.overflow, rfl, rfl⟩⟩
  · rw [hmax] at hreserve
    obtain ⟨s₂, hrun, haccounted, -, hcache⟩ :=
      h₁.first.run_set_reserved hs hseeded hlength hlarge hmax rfl hreserve
    obtain ⟨t₂, hrun', haccounted', -, hcache'⟩ :=
      h₁.second.run_set_reserved ht hseeded' hlength hlarge' hmax' rfl
        (by rw [hindex, h.maxSize]; exact hreserve)
    rw [Stays, hperform, run_bind_ok hrun, run_bind_ok hrun']
    refine ⟨rfl, hvictims, .inr ⟨S, T, _, haccounted, haccounted', ?_⟩⟩
    change t₂.cache.maxSize = s₂.cache.maxSize
    rw [hcache, hcache']
    exact h₁.maxSize

theorem stays (h : Alike S T m s t) {call : DiskCall} (hcall : call.Possible) : Stays call s t := by
  cases call with
  | set now key content => exact h.stays_store rfl rfl (hcall key content rfl)
  | setJson now key value => exact h.stays_store rfl rfl (hcall key _ rfl)
  | get key =>
    rw [Stays, DiskCall.perform, run_bind_ok (h.first.settled.run_get key),
      run_bind_ok (h.second.settled.run_get key)]
    exact ⟨rfl, rfl, .inr ⟨S, T, m, h⟩⟩
  | remove key =>
    obtain ⟨s₁, hs, hfirst, hcache⟩ := h.first.settled.run_remove key
    obtain ⟨t₁, ht, hsecond, hcache'⟩ := h.second.settled.run_remove key
    rw [Stays, DiskCall.perform, run_bind_ok hs, run_bind_ok ht]
    refine ⟨rfl, rfl, .inr ⟨S, T, _, h.first.without hfirst, h.second.without hsecond, ?_⟩⟩
    change t₁.cache.maxSize = s₁.cache.maxSize
    rw [hcache, hcache']
    exact h.maxSize
  | clear =>
    obtain ⟨s₁, hs, hfirst, hcache⟩ := h.first.run_clear
    obtain ⟨t₁, ht, hsecond, hcache'⟩ := h.second.run_clear
    have hmax : s₁.cache.maxSize = s.cache.maxSize := by rcases hcache with h | h <;> rw [h]
    have hmax' : t₁.cache.maxSize = t.cache.maxSize := by rcases hcache' with h | h <;> rw [h]
    rw [Stays, DiskCall.perform, run_bind_ok hs, run_bind_ok ht]
    refine ⟨rfl, rfl, .inr ⟨S, T, _, hfirst, hsecond, ?_⟩⟩
    change t₁.cache.maxSize = s₁.cache.maxSize
    rw [hmax, hmax']
    exact h.maxSize
  | stats =>
    obtain ⟨s₁, t₁, hs, ht, h₁, -, -, hindex, -, -⟩ := h.run_ensureIndex
    rw [Stays, DiskCall.perform, run_bind_ok (DiskCache.run_stats hs),
      run_bind_ok (DiskCache.run_stats ht), hindex, h₁.maxSize]
    exact ⟨rfl, rfl, .inr ⟨S, T, m, h₁⟩⟩
  | reopen maxSize =>
    have hfirst : S.Accounted ⟨.new ⟨s.cache.directory, maxSize⟩, s.drive⟩ m :=
      h.first.reopen h.first.settled.directory
    have hsecond : T.Accounted ⟨.new ⟨t.cache.directory, maxSize⟩, t.drive⟩ m :=
      h.second.reopen h.second.settled.directory
    exact ⟨rfl, rfl, .inr ⟨S, T, m, hfirst, hsecond, rfl⟩⟩

/-- The same calls are answered alike and drop alike. -/
theorem trace_eq (h : Alike S T m s t) {calls : List DiskCall}
    (hcalls : ∀ call ∈ calls, call.Possible) :
    DiskCache.trace calls t = DiskCache.trace calls s := by
  induction calls generalizing S T m s t with
  | nil => rfl
  | cons call calls ih =>
    obtain ⟨hanswer, hvictims, halike⟩ := h.stays (hcalls call (List.mem_cons_self ..))
    have hrest := fun c hc => hcalls c (List.mem_cons_of_mem _ hc)
    rw [DiskCache.trace, DiskCache.trace, hvictims]
    rcases hs : call.perform.run.run s with ⟨r, s'⟩
    rcases ht : call.perform.run.run t with ⟨r', t'⟩
    rw [hs, ht] at hanswer halike
    obtain rfl : r' = r := hanswer
    rcases halike with ⟨e, rfl, hfatal⟩ | ⟨S', T', m', h'⟩
    · simp only [hfatal, if_true]
    · have htail := ih h' hrest
      cases r' with
      | ok answer => simp only [htail]
      | error e => simp only [htail]

end Alike

/-! ## A disk layer that is never opened anew -/

/-- A disk layer of given settings that stands for a content. As long as it has no index there has been
nothing to count. -/
structure Kept (S : Shelf) (settings : DiskSettings) (s : DiskState) (m : Content) : Prop where
  accounted : S.Accounted s m
  maxSize : s.cache.maxSize = settings.maxSize
  unmade : s.cache.seeded = false → s.cache.index = {} ∧ m = fun _ => none

namespace Kept

variable {settings : DiskSettings} {s' : DiskState}

theorem store (h : S.Kept settings s m) {now : UInt64} {key : String} {content : ByteArray}
    {kept : Bool} (hlength : content.size < UInt64.size)
    (hrun : (DiskCache.set now key content).run.run s = (.ok kept, s')) :
    ∃ m', S.Kept settings s' m' := by
  rcases h.accounted.run_set now key hlength with
    ⟨-, hlarge⟩ | ⟨s₁, hover, -⟩ | ⟨s₁, m₁, sc, hstored, h₁, -, -, -, hmax, hseeded, -⟩
  · rw [hrun] at hlarge
    cases hlarge
    exact ⟨m, h⟩
  · rw [hrun] at hover
    cases hover
  · rw [hrun] at hstored
    cases hstored
    refine ⟨m₁, h₁, hmax.trans h.maxSize, ?_⟩
    intro hunmade
    rw [hseeded] at hunmade
    cases hunmade

theorem call (h : S.Kept settings s m) {call : DiskCall} {answer : DiskAnswer}
    (hcall : call.Possible) (hopen : ∀ maxSize, call ≠ .reopen maxSize)
    (hrun : call.perform.run.run s = (.ok answer, s')) : ∃ m', S.Kept settings s' m' := by
  cases call with
  | set now key content =>
    obtain ⟨kept, s₁, hset, hpure⟩ := exists_of_run_bind hrun
    cases hpure
    exact h.store (hcall key content rfl) hset
  | setJson now key value =>
    obtain ⟨kept, s₁, hset, hpure⟩ := exists_of_run_bind hrun
    cases hpure
    exact h.store (hcall key _ rfl) hset
  | get key =>
    rw [DiskCall.perform, run_bind_ok (h.accounted.settled.run_get key)] at hrun
    cases hrun
    exact ⟨m, h⟩
  | remove key =>
    obtain ⟨s₁, hremove, hsettled, hcache⟩ := h.accounted.settled.run_remove key
    rw [DiskCall.perform, run_bind_ok hremove] at hrun
    cases hrun
    refine ⟨_, h.accounted.without hsettled, ?_, ?_⟩
    · rw [hcache]
      exact h.maxSize
    · intro hunmade
      rw [hcache] at hunmade ⊢
      obtain ⟨hindex, rfl⟩ := h.unmade hunmade
      refine ⟨?_, funext fun d => ite_self none⟩
      simp only [hindex]
      rfl
  | clear =>
    obtain ⟨s₁, hclear, haccounted, hcache⟩ := h.accounted.run_clear
    rw [DiskCall.perform, run_bind_ok hclear] at hrun
    cases hrun
    refine ⟨_, haccounted, ?_, ?_⟩
    · rcases hcache with hcache | hcache
      · rw [hcache]
        exact h.maxSize
      · rw [hcache]
        exact h.maxSize
    · intro hunmade
      rcases hcache with hcache | hcache
      · rw [hcache] at hunmade ⊢
        exact ⟨(h.unmade hunmade).1, rfl⟩
      · rw [hcache]
        exact ⟨rfl, rfl⟩
  | stats =>
    obtain ⟨s₁, hensure, haccounted, hseeded, -, hmax⟩ := h.accounted.run_ensureIndex
    rw [DiskCall.perform, run_bind_ok (DiskCache.run_stats hensure)] at hrun
    cases hrun
    refine ⟨m, haccounted, hmax.trans h.maxSize, ?_⟩
    intro hunmade
    rw [hseeded] at hunmade
    cases hunmade
  | reopen maxSize => exact absurd rfl (hopen maxSize)

theorem uses {start : DiskState} (h : S.Kept settings start m) (huses : DiskCache.Uses start s) :
    ∃ m', S.Kept settings s m' := by
  induction huses with
  | start => exact ⟨m, h⟩
  | call _ hcall hopen hrun ih =>
    obtain ⟨m₁, h₁⟩ := ih
    exact h₁.call hcall hopen hrun

/-- Whatever index is made of the same content is the one that has been kept. -/
theorem index_eq (h : S.Kept settings s m) (ht : T.Accounted t m) (hseeded : t.cache.seeded = true) :
    t.cache.index = s.cache.index := by
  cases hs : s.cache.seeded with
  | true => exact h.accounted.settled.index_eq ht.settled hs hseeded
  | false =>
    obtain ⟨hindex, rfl⟩ := h.unmade hs
    obtain ⟨hexact, hget⟩ := ht.settled.index hseeded
    rw [hindex]
    exact DiskIndex.eq_of_get? hexact DiskIndex.exact_empty hget

end Kept

end Shelf

namespace DiskCache

/-- **Reopening cannot be told.** After calls that have all answered in a directory that was empty at
first, a disk layer that opens the directory anew, whatever the order in which the volume lists its
files, makes the index that has been kept and changes no file. From there on, the two answer the same
calls alike and drop the same entries in the same order. -/
theorem reopened_agrees {settings : DiskSettings} {drive : Drive} {s : DiskState} {w : Volume}
    (hfresh : Fresh drive.volume settings.directory) (hfaults : drive.faults = [])
    (huses : Uses ⟨DiskCache.new settings, drive⟩ s) (hw : s.drive.volume.Relisted w) :
    (∃ t, ensureIndex.run.run ⟨DiskCache.new settings, ⟨w, []⟩⟩ = (.ok (), t) ∧
      t.cache.index = s.cache.index ∧ t.drive = ⟨w, []⟩) ∧
    ∀ calls : List DiskCall, (∀ call ∈ calls, call.Possible) →
      trace calls ⟨DiskCache.new settings, ⟨w, []⟩⟩ = trace calls s := by
  obtain ⟨S, hpath, hstart⟩ := Shelf.exists_accounted_new settings drive hfresh hfaults
  have hnew : S.Kept settings ⟨DiskCache.new settings, drive⟩ fun _ => none :=
    ⟨hstart, rfl, fun _ => ⟨rfl, rfl⟩⟩
  obtain ⟨m, h⟩ := hnew.uses huses
  have hdir : settings.directory = s.cache.directory := by
    rw [h.accounted.settled.directory, hpath]
  obtain ⟨T, hT⟩ := h.accounted.relisted hw hdir
  refine ⟨?_, ?_⟩
  · obtain ⟨t, hensure, ht, hseeded, hdrive, -⟩ := hT.run_ensureIndex
    exact ⟨t, hensure, h.index_eq ht hseeded, hdrive⟩
  · intro calls hcalls
    have halike : Shelf.Alike S T m s ⟨DiskCache.new settings, ⟨w, []⟩⟩ :=
      ⟨h.accounted, hT, h.maxSize.symm⟩
    exact halike.trace_eq hcalls

/-- After a value of three bytes has been stored where there is room for five, the directory is opened
anew. The next store drops the value from both. -/
theorem reopened_agrees_five : ∃ s t : DiskState,
    Uses ⟨DiskCache.new ⟨"cache", 5⟩, ⟨volumeOf "cache", []⟩⟩ s ∧
      s.drive.volume.Relisted s.drive.volume ∧
      ensureIndex.run.run ⟨DiskCache.new ⟨"cache", 5⟩, ⟨s.drive.volume, []⟩⟩ = (.ok (), t) ∧
      t.cache.index = s.cache.index ∧
      trace [.set 2 "b" ⟨#[4, 5, 6]⟩, .stats] ⟨DiskCache.new ⟨"cache", 5⟩, ⟨s.drive.volume, []⟩⟩ =
        trace [.set 2 "b" ⟨#[4, 5, 6]⟩, .stats] s := by
  have hfresh : Fresh (volumeOf "cache") "cache" :=
    fresh_volumeOf (by decide)
  obtain ⟨S, -, hstart⟩ :=
    Shelf.exists_accounted_new ⟨"cache", 5⟩ ⟨volumeOf "cache", []⟩ hfresh rfl
  have hpossible : ∀ now key, ∀ content : ByteArray, content.size = 3 →
      (DiskCall.set now key content).Possible := by
    intro now key content hsize
    exact DiskCall.possible_set (by rw [hsize]; decide)
  have hnone : DiskIndex.Fits (Content.indexed fun _ => none) 0 :=
    Content.fits (fun _ => 0) [] (fun _ _ hp => by cases hp) (Nat.zero_le _)
  have hsize : (⟨#[1, 2, 3]⟩ : ByteArray).size = 3 := rfl
  obtain ⟨s, m, hset, -⟩ := hstart.exists_set 1 "a" hnone (by rw [hsize]; decide)
    (by rw [hsize]; decide)
  have hcall : (DiskCall.set 1 "a" ⟨#[1, 2, 3]⟩).perform.run.run _ = (.ok (.stored true), s) :=
    run_bind_ok hset
  have huses := Uses.start.call (hpossible 1 "a" _ rfl) (fun _ h => by cases h) hcall
  obtain ⟨⟨t, hensure, hindex, -⟩, htrace⟩ := reopened_agrees hfresh rfl huses (.refl _)
  refine ⟨s, t, huses, .refl _, hensure, hindex, htrace _ ?_⟩
  intro call hmem
  rcases List.mem_cons.1 hmem with rfl | hmem
  · exact hpossible 2 "b" _ rfl
  · obtain rfl := List.mem_singleton.1 hmem
    intro key content ho
    cases ho

end DiskCache

end CodeGraph.Cache
