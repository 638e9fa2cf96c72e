import CodeGraph.Proofs.Cache.Replacing

/-!
# The accounts of the disk layer

A run is any sequence of calls that answer, opening the directory anew with another budget among them,
on a drive without faults and in a directory that was empty or missing at first. In every run the
directory holds the two files of each of some entries and nothing else (`DiskCache.Holds`), the
statistics give the number of these entries and the total of their values, and after a value has been
stored the total is within the budget (`DiskCache.reaches_accounts`). Two keys with one digest do no
harm: they take each other's place.

Every call answers, but for a store whose size and those of the others add up to more than a 64-bit
word.
-/

namespace CodeGraph.Cache

open DiskCache (valueEnding sidecarEnding)

inductive DiskCall where
  | set (now : UInt64) (key : String) (content : ByteArray)
  | setJson (now : UInt64) (key : String) (value : Json)
  | get (key : String)
  | remove (key : String)
  | clear
  | stats
  /-- The directory is opened anew with a budget. -/
  | reopen (maxSize : UInt64)

inductive DiskAnswer where
  | stored (kept : Bool)
  | found (content : Option ByteArray)
  | counted (stats : DiskStats)
  | done

namespace DiskCall

/-- The key and the value that a call offers. -/
def offer? : DiskCall → Option (String × ByteArray)
  | .set _ key content => some (key, content)
  | .setJson _ key value => some (key, value.compact.toUTF8)
  | .get _ | .remove _ | .clear | .stats | .reopen _ => none

/-- Whether a value that a call offers can be: no number of bytes in memory is above a word. -/
def Possible (call : DiskCall) : Prop :=
  ∀ key content, call.offer? = some (key, content) → content.size < UInt64.size

theorem possible_set {now : UInt64} {key : String} {content : ByteArray}
    (h : content.size < UInt64.size) : (DiskCall.set now key content).Possible := by
  intro key' content' ho
  cases ho
  exact h

/-- Carries out a call. -/
def perform : DiskCall → DiskM DiskAnswer
  | .set now key content => do
    return .stored (← DiskCache.set now key content)
  | .setJson now key value => do
    return .stored (← DiskCache.setJson now key value)
  | .get key => do
    return .found (← DiskCache.get key)
  | .remove key => do
    DiskCache.remove key
    return .done
  | .clear => do
    DiskCache.clear
    return .done
  | .stats => do
    return .counted (← DiskCache.stats)
  | .reopen maxSize => do
    modify fun s => { s with cache := .new { directory := s.cache.directory, maxSize } }
    return .done

end DiskCall

namespace DiskCache

/-- The runs of a disk layer. -/
inductive Reaches (start : DiskState) : DiskState → Prop
  | start : Reaches start start
  | call {s s' : DiskState} {call : DiskCall} {answer : DiskAnswer} : Reaches start s →
      call.Possible → call.perform.run.run s = (.ok answer, s') → Reaches start s'

/-- The place of a file of the entry of a sidecar. -/
def placeOf (sc : Sidecar) (ending : String) : List String :=
  [shardOf (keyDigest sc.key), keyDigest sc.key ++ ending]

/-- A directory, at the end of a path, holds the values and the sidecars of some entries with
different digests, and nothing else but the directories of digests. Each sidecar gives the size of its
value. -/
structure Holds (v : Volume) (dir : String) (base : List String)
    (l : List (Sidecar × ByteArray)) : Prop where
  digests : (l.map fun p => keyDigest p.1.key).Nodup
  size : ∀ p ∈ l, p.1.size.toNat = p.2.size
  value : ∀ p ∈ l, v.item? (base ++ placeOf p.1 valueEnding) = some (.file p.2)
  sidecar : ∀ p ∈ l, ∃ b, v.item? (base ++ placeOf p.1 sidecarEnding) = some (.file b) ∧
    Sidecar.decode? b = some p.1
  only : ∀ r i, r ≠ [] → v.item? (base ++ r) = some i →
    (∃ d, IsDigest d ∧ r = [shardOf d] ∧ i = .directory) ∨
      ∃ p ∈ l, r = placeOf p.1 valueEnding ∨ r = placeOf p.1 sidecarEnding
  leads : v.LeadsTo dir base ∨ l = [] ∧ v.readDir dir = .error .notFound

/-- The bytes of the values of some entries. -/
def totalOf (l : List (Sidecar × ByteArray)) : Nat :=
  (l.map fun p => p.2.size).sum

end DiskCache

namespace Shelf

open DiskCache (Holds placeOf totalOf)

variable {S : Shelf} {s : DiskState} {m : Content}

/-! ## What a call does -/

/-- What a call does to the entries. -/
inductive Performed (S : Shelf) (s : DiskState) (m : Content) (call : DiskCall) :
    Except CacheError DiskAnswer → DiskState → Prop
  /-- A value has been stored, and what is left with it is within the budget. -/
  | stored {key : String} {content : ByteArray} {s' : DiskState} {m' : Content} {sc : Sidecar} :
      call.offer? = some (key, content) → S.Accounted s' m' →
      m' (keyDigest key) = some (sc, content) → sc.key = key →
      DiskIndex.Fits m'.indexed s.cache.maxSize.toNat → s'.cache.maxSize = s.cache.maxSize →
      Performed S s m call (.ok (.stored true)) s'
  | answered {answer : DiskAnswer} {s' : DiskState} {m' : Content} :
      answer ≠ .stored true → S.Accounted s' m' → Performed S s m call (.ok answer) s'
  /-- The value and the others are more than a word can count. -/
  | overflow {key : String} {content : ByteArray} {s' : DiskState} :
      call.offer? = some (key, content) →
      (∀ bound, DiskIndex.Fits m.indexed bound → UInt64.size ≤ bound + content.size) →
      Performed S s m call (.error .overflow) s'

/-- Both kinds of store are the same one. -/
theorem perform_of_offer {call : DiskCall} {key : String} {content : ByteArray}
    (ho : call.offer? = some (key, content)) :
    ∃ now, call.perform = do return .stored (← DiskCache.set now key content) := by
  cases call with
  | set now _ _ =>
    cases ho
    exact ⟨now, rfl⟩
  | setJson now _ _ =>
    cases ho
    exact ⟨now, rfl⟩
  | _ => cases ho

theorem Accounted.performed_store (h : S.Accounted s m) {call : DiskCall} {key : String}
    {content : ByteArray} (ho : call.offer? = some (key, content))
    (hlength : content.size < UInt64.size) :
    S.Performed s m call (call.perform.run.run s).1 (call.perform.run.run s).2 := by
  obtain ⟨now, hperform⟩ := perform_of_offer ho
  rw [hperform]
  rcases h.run_set now key hlength with
    ⟨-, hrun⟩ | ⟨s', hrun, hover⟩ | ⟨s', m', sc, hrun, haccounted, hm, hkey, hfits, hmax, -⟩
  · rw [run_bind_ok hrun]
    exact .answered (by simp) h
  · rw [run_bind_error hrun]
    exact .overflow ho hover
  · rw [run_bind_ok hrun]
    exact .stored ho haccounted hm hkey hfits hmax

/-- Nothing is left after clearing. -/
theorem Accounted.run_clear (h : S.Accounted s m) :
    ∃ s', DiskCache.clear.run.run s = (.ok (), s') ∧ S.Accounted s' (fun _ => none) ∧
      (s'.cache = s.cache ∨ s'.cache = { s.cache with index := {} }) := by
  obtain ⟨s', hrun, hsettled, hcache⟩ := h.settled.run_clear
  have hnone : DiskIndex.Fits (Content.indexed fun _ => none) (UInt64.size - 1) :=
    h.fits.fewer fun d e he => by cases he
  exact ⟨s', hrun, ⟨hsettled, fun d p hp => (by cases hp), hnone⟩, hcache⟩

theorem Accounted.reopen (h : S.Accounted s m) {settings : DiskSettings}
    (hdir : settings.directory = S.path) : S.Accounted ⟨DiskCache.new settings, s.drive⟩ m :=
  ⟨h.settled.reopen hdir, h.own, h.fits⟩

theorem Accounted.performed (h : S.Accounted s m) {call : DiskCall} (hcall : call.Possible) :
    S.Performed s m call (call.perform.run.run s).1 (call.perform.run.run s).2 := by
  cases call with
  | set now key content => exact h.performed_store rfl (hcall key content rfl)
  | setJson now key value => exact h.performed_store rfl (hcall key _ rfl)
  | get key =>
    rw [DiskCall.perform, run_bind_ok (h.settled.run_get key)]
    exact .answered (by simp) h
  | remove key =>
    obtain ⟨s', hrun, hsettled, -⟩ := h.settled.run_remove key
    rw [DiskCall.perform, run_bind_ok hrun]
    exact .answered (by simp) (h.without hsettled)
  | clear =>
    obtain ⟨s', hrun, haccounted, -⟩ := h.run_clear
    rw [DiskCall.perform, run_bind_ok hrun]
    exact .answered (by simp) haccounted
  | stats =>
    obtain ⟨s', hrun, haccounted, -⟩ := h.run_ensureIndex
    rw [DiskCall.perform, run_bind_ok (DiskCache.run_stats hrun)]
    exact .answered (by simp) haccounted
  | reopen maxSize =>
    exact .answered (by simp) (h.reopen h.settled.directory)

/-! ## Runs -/

theorem Accounted.of_reaches {start : DiskState} (h : S.Accounted start m)
    (hreach : DiskCache.Reaches start s) : ∃ m', S.Accounted s m' := by
  induction hreach with
  | start => exact ⟨m, h⟩
  | call _ hcall hrun ih =>
    obtain ⟨m₁, h₁⟩ := ih
    have hstep := h₁.performed hcall
    rw [hrun] at hstep
    cases hstep with
    | stored _ h₂ => exact ⟨_, h₂⟩
    | answered _ h₂ => exact ⟨_, h₂⟩

/-! ## What the directory holds -/

/-- The entries of an index of a content, in the order of their digests. -/
theorem exists_entries {l : List (String × IndexedEntry)}
    (h : ∀ q ∈ l, ∃ p, m q.1 = some p ∧ keyDigest p.1.key = q.1) :
    ∃ l' : List (Sidecar × ByteArray), l'.map (fun p => keyDigest p.1.key) = l.map Prod.fst ∧
      ∀ p ∈ l', m (keyDigest p.1.key) = some p := by
  induction l with
  | nil => exact ⟨[], rfl, fun p hp => by cases hp⟩
  | cons q l ih =>
    obtain ⟨p, hp, hdigest⟩ := h q (List.mem_cons_self ..)
    obtain ⟨l', hdigests, hl'⟩ := ih fun q hq => h q (List.mem_cons_of_mem _ hq)
    refine ⟨p :: l', ?_, ?_⟩
    · rw [List.map_cons, List.map_cons, hdigest, hdigests]
    · intro p' hp'
      rcases List.mem_cons.1 hp' with rfl | hp'
      · rw [hdigest]
        exact hp
      · exact hl' p' hp'

/-- The entries of a disk layer, which its statistics count. -/
theorem Accounted.exists_list (h : S.Accounted s m) :
    ∃ l : List (Sidecar × ByteArray), (l.map fun p => keyDigest p.1.key).Nodup ∧
      (∀ p, p ∈ l ↔ m (keyDigest p.1.key) = some p) ∧
      (∀ bound, DiskIndex.Fits m.indexed bound ↔ totalOf l ≤ bound) ∧
      ∃ s' total, DiskCache.stats.run.run s = (.ok ⟨l.length, total, s.cache.maxSize⟩, s') ∧
        total.toNat = totalOf l := by
  obtain ⟨s', hrun, h', hseeded, -, hmax⟩ := h.run_ensureIndex
  obtain ⟨hexact, hget⟩ := h'.settled.index hseeded
  have hindexed : ∀ q ∈ s'.cache.index.entries.entries, m.indexed q.1 = some q.2 := by
    intro q hq
    rw [← hget, NameMap.get?_eq_some_iff]
    exact hq
  obtain ⟨l, hdigests, hl⟩ := exists_entries (m := m) fun q hq => by
    obtain ⟨p, hp, -⟩ := Option.map_eq_some_iff.1 (hindexed q hq)
    exact ⟨p, hp, (h.own q.1 p hp).1⟩
  have hweight : s'.cache.index.weight = totalOf l := by
    rw [DiskIndex.weight_eq hindexed, ← hdigests, List.map_map, totalOf]
    congr 1
    refine List.map_congr_left ?_
    intro p hp
    rw [Function.comp_apply, DiskIndex.sizeIn, Content.indexed, hl p hp]
    exact (h.own _ p (hl p hp)).2
  refine ⟨l, ?_, ?_, ?_, s', s'.cache.index.totalSize, ?_, ?_⟩
  · rw [hdigests]
    exact NameMap.nodup_names _
  · intro p
    refine ⟨hl p, ?_⟩
    intro hp
    have hthere : m.indexed (keyDigest p.1.key) = some p.1.indexed := by
      rw [Content.indexed, hp]
      rfl
    rw [← hget, NameMap.get?_eq_some_iff] at hthere
    have hname := List.mem_map_of_mem (f := Prod.fst) hthere
    rw [← hdigests] at hname
    obtain ⟨p', hp', hsame⟩ := List.mem_map.1 hname
    have hm := hl p' hp'
    simp only at hsame
    rw [hsame, hp] at hm
    exact Option.some.inj hm ▸ hp'
  · intro bound
    rw [← hweight]
    exact ⟨fun hfits => hfits.weight_le hget, (DiskIndex.fits_weight hget).mono⟩
  · have hlength : s'.cache.index.entries.size = l.length := by
      have hcount := congrArg List.length hdigests
      rw [List.length_map, List.length_map] at hcount
      exact hcount.symm
    rw [← hlength, ← hmax, DiskCache.run_stats hrun]
  · rw [← hweight]
    exact hexact

/-- The directory holds the entries and nothing else. -/
theorem Accounted.holds (h : S.Accounted s m) {l : List (Sidecar × ByteArray)}
    (hnodup : (l.map fun p => keyDigest p.1.key).Nodup)
    (hmem : ∀ p, p ∈ l ↔ m (keyDigest p.1.key) = some p) :
    Holds s.drive.volume S.path S.base l := by
  have hstocked : ∀ p ∈ l, S.Stocked s.drive.volume := fun p hp => h.settled.stocked ((hmem p).1 hp)
  refine ⟨hnodup, ?_, ?_, ?_, ?_, ?_⟩
  · intro p hp
    exact (h.own _ p ((hmem p).1 hp)).2
  · intro p hp
    have hfile := h.settled.fileAt_value (isDigest_keyDigest p.1.key)
    rw [(hmem p).1 hp] at hfile
    exact ((hstocked p hp).item?_place_of_fileAt hfile).1
  · intro p hp
    have hfile := h.settled.fileAt_sidecar (isDigest_keyDigest p.1.key)
    rw [(hmem p).1 hp] at hfile
    exact ⟨p.1.encode, ((hstocked p hp).item?_place_of_fileAt hfile).1, Sidecar.decode?_encode p.1⟩
  · intro r i hr hi
    cases h.settled.site with
    | missing hmissing =>
      have hground := (Volume.within_makeDirs hmissing.makeDirs).item _ _ hi
      rw [S.bare r hr] at hground
      cases hground
    | stocked hstocked =>
      cases hstocked.known r i hr hi with
      | shard hd => exact .inl ⟨_, hd, rfl, rfl⟩
      | @file d e content hd he _ =>
        right
        have hfile : S.fileAt s.drive.volume d e ≠ none := by
          rw [fileAt, place, hi]
          exact Option.some_ne_none content
        obtain ⟨hending, p, hp⟩ := h.settled.ending_of_fileAt hd hfile
        obtain ⟨rfl, -⟩ := h.own d p hp
        refine ⟨p, (hmem p).2 hp, ?_⟩
        rcases hending with rfl | rfl
        · exact .inl rfl
        · exact .inr rfl
  · cases h.settled.site with
    | missing hmissing =>
      have hempty := h.settled.empty fun d _ => hmissing.fileAt
      refine .inr ⟨List.eq_nil_iff_forall_not_mem.2 fun p hp => ?_, hmissing.readDir⟩
      rw [hmem p, hempty] at hp
      cases hp
    | stocked hstocked => exact .inl hstocked.leads

theorem exists_accounted_new (settings : DiskSettings) (drive : Drive)
    (hfresh : Fresh drive.volume settings.directory) (hfaults : drive.faults = []) :
    ∃ S : Shelf, S.path = settings.directory ∧
      S.Accounted ⟨DiskCache.new settings, drive⟩ fun _ => none := by
  obtain ⟨S, hpath, hsettled⟩ := exists_settled_new settings drive hfresh hfaults
  have hnone : DiskIndex.Fits (Content.indexed fun _ => none) (UInt64.size - 1) :=
    Content.fits (fun _ => 0) [] (fun _ _ hp => by cases hp) (Nat.zero_le _)
  exact ⟨S, hpath, hsettled, fun d p hp => (by cases hp), hnone⟩

end Shelf

namespace DiskCache

/-- **In every run, index and directory are the same accounts.** The directory holds the value and the
sidecar of each of some entries and nothing else, and the statistics give their number and their total
size. Every call answers, unless it stores a value which with the others is more than a word can
count. A call that has stored a value leaves it there, and the total within the budget. -/
theorem reaches_accounts {settings : DiskSettings} {drive : Drive} {s : DiskState}
    (hfresh : Fresh drive.volume settings.directory) (hfaults : drive.faults = [])
    (hreach : Reaches ⟨DiskCache.new settings, drive⟩ s) :
    ∃ base l, Holds s.drive.volume settings.directory base l ∧
      (∃ s' total, stats.run.run s = (.ok ⟨l.length, total, s.cache.maxSize⟩, s') ∧
        total.toNat = totalOf l) ∧
      ∀ call : DiskCall, call.Possible →
        (∃ key content s', call.offer? = some (key, content) ∧
          call.perform.run.run s = (.error .overflow, s') ∧
          UInt64.size ≤ totalOf l + content.size) ∨
        ∃ answer s', call.perform.run.run s = (.ok answer, s') ∧
          ∀ key content, call.offer? = some (key, content) → answer = .stored true →
            (∃ l', Holds s'.drive.volume settings.directory base l' ∧
              totalOf l' ≤ s'.cache.maxSize.toNat ∧ ∃ sc, (sc, content) ∈ l' ∧ sc.key = key) ∧
            (get key).run.run s' = (.ok (some content), s') := by
  obtain ⟨S, hpath, hstart⟩ := Shelf.exists_accounted_new settings drive hfresh hfaults
  obtain ⟨m, h⟩ := hstart.of_reaches hreach
  obtain ⟨l, hnodup, hmem, hfits, hstats⟩ := h.exists_list
  rw [← hpath]
  refine ⟨S.base, l, h.holds hnodup hmem, hstats, ?_⟩
  intro call hcall
  have hstep := h.performed hcall
  rcases hrun : call.perform.run.run s with ⟨r, s'⟩
  rw [hrun] at hstep
  cases hstep with
  | overflow ho hover => exact .inl ⟨_, _, s', ho, rfl, hover _ ((hfits _).2 (Nat.le_refl _))⟩
  | answered hanswer _ => exact .inr ⟨_, s', rfl, fun _ _ _ hstored => absurd hstored hanswer⟩
  | @stored key content _ m' sc ho h' hm hkey hfits' hmax =>
    refine .inr ⟨_, s', rfl, ?_⟩
    intro key' content' ho' _
    cases ho.symm.trans ho'
    obtain ⟨l', hnodup', hmem', hbound, -⟩ := h'.exists_list
    refine ⟨⟨l', h'.holds hnodup' hmem', ?_, sc, (hmem' (sc, content)).2 ?_, hkey⟩,
      h'.settled.get_of_content hm hkey⟩
    · rw [hmax]
      exact (hbound _).1 hfits'
    · rw [hkey]
      exact hm

/-- Two values of three bytes are stored where there is room for five: the second one is there and
within the budget. -/
theorem reaches_accounts_five : ∃ (s : DiskState) (base : List String)
    (l : List (Sidecar × ByteArray)),
    Reaches ⟨DiskCache.new ⟨"cache", 5⟩, ⟨volumeOf "cache", []⟩⟩ s ∧
      Holds s.drive.volume "cache" base l ∧ totalOf l ≤ 5 ∧
      (∃ sc, (sc, ⟨#[4, 5, 6]⟩) ∈ l ∧ sc.key = "b") ∧
      (get "b").run.run s = (.ok (some ⟨#[4, 5, 6]⟩), s) := by
  have hfresh : Fresh (volumeOf "cache") "cache" :=
    fresh_volumeOf (by decide)
  obtain ⟨S, -, hstart⟩ :=
    Shelf.exists_accounted_new ⟨"cache", 5⟩ ⟨volumeOf "cache", []⟩ hfresh rfl
  obtain ⟨a, ha⟩ : ∃ a : ByteArray, a = ⟨#[1, 2, 3]⟩ := ⟨_, rfl⟩
  obtain ⟨b, hb⟩ : ∃ b : ByteArray, b = ⟨#[4, 5, 6]⟩ := ⟨_, rfl⟩
  have hasize : a.size = 3 := by rw [ha]; rfl
  have hbsize : b.size = 3 := by rw [hb]; rfl
  have hpossible : ∀ now key content, content.size = 3 →
      (DiskCall.set now key content).Possible := by
    intro now key content hsize
    exact DiskCall.possible_set (by rw [hsize]; decide)
  have hnone : DiskIndex.Fits (Content.indexed fun _ => none) 0 :=
    Content.fits (fun _ => 0) [] (fun _ _ hp => by cases hp) (Nat.zero_le _)
  obtain ⟨s₁, m₁, hfirst, h₁, hfits₁, hmax₁⟩ := hstart.exists_set 1 "a" hnone
    (by rw [hasize]; decide) (by rw [hasize]; decide)
  have hfive : s₁.cache.maxSize = 5 := hmax₁
  obtain ⟨s₂, m₂, hsecond, -, -, hmax₂⟩ := h₁.exists_set 2 "b" hfits₁
    (by rw [hbsize]; decide) (by rw [hbsize, hfive]; decide)
  have hcall₁ : (DiskCall.set 1 "a" a).perform.run.run _ = (.ok (.stored true), s₁) :=
    run_bind_ok hfirst
  have hcall₂ : (DiskCall.set 2 "b" b).perform.run.run s₁ = (.ok (.stored true), s₂) :=
    run_bind_ok hsecond
  have hreach₁ := Reaches.start.call (hpossible 1 "a" a hasize) hcall₁
  have hreach₂ := hreach₁.call (hpossible 2 "b" b hbsize) hcall₂
  obtain ⟨base, l, -, -, hcalls⟩ := reaches_accounts hfresh rfl hreach₁
  rcases hcalls (.set 2 "b" b) (hpossible 2 "b" b hbsize) with
    ⟨key, content, s', -, herror, -⟩ | ⟨answer, s', hrun, hstored⟩
  · rw [hcall₂] at herror
    cases herror
  · rw [hcall₂] at hrun
    cases hrun
    obtain ⟨⟨l', hholds, htotal, hmem⟩, hget⟩ := hstored "b" b rfl rfl
    rw [hmax₂, hfive] at htotal
    rw [hb] at hmem hget
    exact ⟨s₂, base, l', hreach₂, hholds, htotal, hmem, hget⟩

end DiskCache

end CodeGraph.Cache
