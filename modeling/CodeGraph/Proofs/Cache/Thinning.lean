import CodeGraph.Proofs.Cache.Index
import CodeGraph.Proofs.Cache.Writing

/-!
# What the disk layer may lose and gain

Whatever faults its operations on files meet, the disk layer keeps its directory in order, and only
storing a value adds one: a lookup takes values away at most, and answers one that was there
(`Shelf.thins_get`, `Shelf.fileAt_of_get`), and storing a value takes others away at most and
leaves behind the old value, the new one or none (`Shelf.stored_set`).
-/

namespace CodeGraph.Cache

open DiskCache (valueEnding sidecarEnding unfinishedEnding)

namespace Shelf

/-! ## Thinning out -/

/-- A disk layer on a shelf. -/
structure Ready (S : Shelf) (s : DiskState) : Prop where
  directory : s.cache.directory = S.path
  site : S.Site s.drive.volume
  digests : ∀ p ∈ s.cache.index.entries.entries, IsDigest p.1

/-- No value is in the second volume that is not in the first. -/
def Thinner (S : Shelf) (v v' : Volume) : Prop :=
  ∀ d content, IsDigest d → S.fileAt v' d valueEnding = some content →
    S.fileAt v d valueEnding = some content

/-- A disk layer that is still in order and has no value that it had not. -/
structure Thinned (S : Shelf) (s s' : DiskState) : Prop where
  ready : S.Ready s'
  thinner : S.Thinner s.drive.volume s'.drive.volume

/-- An operation that only takes values away, and whose answer is such as `P` says. -/
def Thins (S : Shelf) {α : Type} (op : DiskM α) (P : α → Prop := fun _ => True) : Prop :=
  ∀ s, S.Ready s →
    S.Thinned s (op.run.run s).2 ∧ ∀ a, (op.run.run s).1 = .ok a → P a

variable {S : Shelf}

theorem Thinner.refl (v : Volume) : S.Thinner v v :=
  fun _ _ _ hvalue => hvalue

theorem Thinner.trans {v₁ v₂ v₃ : Volume} (h₁ : S.Thinner v₁ v₂) (h₂ : S.Thinner v₂ v₃) :
    S.Thinner v₁ v₃ :=
  fun d content hd hvalue => h₁ d content hd (h₂ d content hd hvalue)

theorem Thinned.refl {s : DiskState} (h : S.Ready s) : S.Thinned s s :=
  ⟨h, .refl _⟩

theorem Thinned.trans {s₁ s₂ s₃ : DiskState} (h₁ : S.Thinned s₁ s₂) (h₂ : S.Thinned s₂ s₃) :
    S.Thinned s₁ s₃ :=
  ⟨h₂.ready, h₁.thinner.trans h₂.thinner⟩

theorem Changed.thinner {v v' : Volume} {d e : String} {content : Option ByteArray}
    (h : S.Changed v v' d e content) (he : content = none ∨ e ≠ valueEnding) :
    S.Thinner v v' := by
  intro d' old hd' hvalue
  rw [h.file d' _ hd'] at hvalue
  split at hvalue
  · next hsame =>
    rcases he with rfl | he
    · cases hvalue
    · exact absurd hsame.2.symm he
  · exact hvalue

/-! ## Rules -/

section Rules

variable {α β : Type} {P : α → Prop} {Q : β → Prop}

theorem Thins.pure {a : α} (ha : P a) : S.Thins (pure a : DiskM α) P :=
  fun _ h => ⟨.refl h, fun b hb => by cases hb; exact ha⟩

theorem Thins.throw (e : CacheError) : S.Thins (throw e : DiskM α) P :=
  fun _ h => ⟨.refl h, fun b hb => by cases hb⟩

theorem Thins.bind {x : DiskM α} {f : α → DiskM β} (hx : S.Thins x P)
    (hf : ∀ a, P a → S.Thins (f a) Q) : S.Thins (x >>= f) Q := by
  intro s hs
  obtain ⟨hthin, hpost⟩ := hx s hs
  rcases hrun : x.run.run s with ⟨e | a, s'⟩
  · rw [hrun] at hthin
    rw [run_bind_error hrun]
    exact ⟨hthin, fun b hb => by cases hb⟩
  · rw [hrun] at hthin hpost
    rw [run_bind_ok hrun]
    obtain ⟨hthin', hpost'⟩ := hf a (hpost a rfl) s' hthin.ready
    exact ⟨hthin.trans hthin', hpost'⟩

/-- An operation goes on as it does from every state it may be in. -/
theorem Thins.get_bind {f : DiskState → DiskM β}
    (hf : ∀ s, S.Ready s → S.Thinned s ((f s).run.run s).2 ∧
      ∀ b, ((f s).run.run s).1 = .ok b → Q b) :
    S.Thins (MonadState.get >>= f) Q := fun s hs => by
  rw [run_bind_ok (run_get s)]
  exact hf s hs

theorem Thins.modifyIndex {f : DiskIndex → DiskIndex}
    (hf : ∀ x p, p ∈ (f x).entries.entries → p ∈ x.entries.entries) :
    S.Thins (DiskM.modifyIndex f) :=
  fun _ h => ⟨⟨⟨h.directory, h.site, fun p hp => h.digests p (hf _ p hp)⟩, .refl _⟩,
    fun _ _ => trivial⟩

/-- An operation on files takes no value away that it does not take away from the volume. -/
theorem Thins.files {op : FileM α}
    (h : ∀ d : Drive, S.Site d.volume →
      S.Site (op.run d).2.volume ∧ S.Thinner d.volume (op.run d).2.volume ∧ P (op.run d).1) :
    S.Thins (DiskM.files op) P := fun s hs => by
  obtain ⟨hsite, hthinner, hpost⟩ := h s.drive hs.site
  refine ⟨⟨⟨hs.directory, hsite, hs.digests⟩, hthinner⟩, fun a ha => ?_⟩
  cases ha
  exact hpost

theorem Thins.file {op : FileM (Except OsError α)} (path : String)
    (h : ∀ d : Drive, S.Site d.volume →
      S.Site (op.run d).2.volume ∧ S.Thinner d.volume (op.run d).2.volume ∧
        ∀ a, (op.run d).1 = .ok a → P a) :
    S.Thins (DiskM.file path op) P := by
  refine Thins.bind (P := fun r => ∀ a, r = .ok a → P a) (.files h) fun r hr => ?_
  rcases r with e | a
  · exact .throw _
  · exact .pure (hr a rfl)

theorem reading (op : Volume → Except OsError α)
    (hop : ∀ v, S.Site v → ∀ a, op v = .ok a → P a) (d : Drive) (h : S.Site d.volume) :
    S.Site ((FileM.reading op).run d).2.volume ∧
      S.Thinner d.volume ((FileM.reading op).run d).2.volume ∧
      ∀ a, ((FileM.reading op).run d).1 = .ok a → P a := by
  rw [FileM.reading_volume]
  exact ⟨h, .refl _, fun a ha => hop d.volume h a (FileM.reading_ok ha)⟩

theorem Thins.read (op : Volume → Except OsError α) : S.Thins (DiskM.files (FileM.reading op)) :=
  .files fun d h => by
    obtain ⟨hsite, hthinner, -⟩ := reading (P := fun _ => True) op (fun _ _ _ _ => trivial) d h
    exact ⟨hsite, hthinner, trivial⟩

end Rules

/-! ## Files of entries -/

section Files

variable {d e : String} (hd : IsDigest d) (he : e ∈ endings)

include hd he

theorem thins_removeIfPresent : S.Thins (DiskCache.removeIfPresent (filePath S.path d e)) := by
  refine Thins.bind (P := fun _ => True) (.files fun D h => ?_) fun r _ => ?_
  · rcases FileM.writing_cases (·.removeFile (filePath S.path d e)) (fun _ v => v) D with
      ⟨v, hremove, -, hv⟩ | ⟨err, -, hv | ⟨n, hv⟩⟩
    · have hchanged := h.removeFile hd he hremove
      rw [FileM.removeFile, hv]
      exact ⟨.stocked hchanged.stocked, hchanged.thinner (.inl rfl), trivial⟩
    · rw [FileM.removeFile, hv]
      exact ⟨h, .refl _, trivial⟩
    · rw [FileM.removeFile, hv]
      exact ⟨h, .refl _, trivial⟩
  · split
    · exact .pure trivial
    · exact .pure trivial
    · exact .throw _

end Files

section Entries

variable {d : String} (hd : IsDigest d)

include hd

theorem Thins.entryPath_bind {α : Type} {P : α → Prop} {f : String → DiskM α} {e : String}
    (hf : S.Thins (f (filePath S.path d e)) P) : S.Thins (DiskCache.entryPathM d e >>= f) P := by
  intro s hs
  rw [run_bind_ok (run_entryPathM hd hs.directory e)]
  exact hf s hs

theorem thins_removeFiles : S.Thins (DiskCache.removeFiles d) :=
  .entryPath_bind hd ((thins_removeIfPresent hd valueEnding_mem).bind fun _ _ =>
    .entryPath_bind hd (thins_removeIfPresent hd sidecarEnding_mem))

theorem thins_removeDigest : S.Thins (DiskCache.removeDigest d) :=
  (Thins.modifyIndex fun _ _ hp => DiskIndex.mem_of_remove hp).bind fun _ _ =>
    thins_removeFiles hd

end Entries

theorem thins_readSidecar (path : String) : S.Thins (DiskCache.readSidecar path) := by
  refine (Thins.read (·.readFile path)).bind fun r _ => ?_
  split
  · split <;> exact .pure trivial
  · exact .pure trivial
  · exact .throw _

/-! ## Looking a value up -/

/-- A lookup only takes values away. -/
theorem thins_get (key : String) : S.Thins (DiskCache.get key) := by
  have hd := isDigest_keyDigest key
  refine .entryPath_bind hd ((thins_readSidecar _).bind fun r _ => ?_)
  split
  · exact .pure trivial
  · exact (thins_removeDigest hd).bind fun _ _ => .pure trivial
  · split
    · exact (thins_removeDigest hd).bind fun _ _ => .pure trivial
    · split
      · exact .pure trivial
      · refine .entryPath_bind hd ((Thins.read (·.readFile _)).bind fun r _ => ?_)
        split
        · exact .pure trivial
        · exact (thins_removeDigest hd).bind fun _ _ => .pure trivial
        · exact .throw _

/-- What a lookup answers was there. -/
theorem fileAt_of_get {key : String} {s s' : DiskState} {content : ByteArray} (hs : S.Ready s)
    (h : (DiskCache.get key).run.run s = (.ok (some content), s')) :
    S.fileAt s.drive.volume (keyDigest key) valueEnding = some content := by
  have hd := isDigest_keyDigest key
  rw [DiskCache.get, run_bind_ok (run_entryPathM hd hs.directory sidecarEnding)] at h
  obtain ⟨r, s₁, hread, h⟩ := exists_of_run_bind h
  obtain ⟨hthin, -⟩ := thins_readSidecar (filePath S.path (keyDigest key) sidecarEnding) s hs
  rw [hread] at hthin
  rcases r with _ | _ | m
  · cases h
  · obtain ⟨_, _, -, h⟩ := exists_of_run_bind h
    cases h
  · simp only at h
    split at h
    · obtain ⟨_, _, -, h⟩ := exists_of_run_bind h
      cases h
    split at h
    · cases h
    rw [run_bind_ok (run_entryPathM hd hthin.ready.directory valueEnding),
      run_bind_ok (DiskM.run_files _ s₁)] at h
    rcases hvalue : ((FileM.readFile (filePath S.path (keyDigest key) valueEnding)).run s₁.drive).1
      with e | bytes
    · rw [hvalue] at h
      split at h
      · next heq => cases heq
      · obtain ⟨_, _, -, h⟩ := exists_of_run_bind h
        cases h
      · cases h
    · rw [hvalue] at h
      cases h
      exact hthin.thinner _ _ hd (hthin.ready.site.readFile hd valueEnding_mem
        (FileM.reading_ok hvalue))

/-! ## Making the index -/

/-- The entries of a list have digests. -/
def Digests (l : List (String × IndexedEntry)) : Prop :=
  ∀ p ∈ l, IsDigest p.1

section Scan

variable {d : String} (hd : IsDigest d)

include hd

theorem thins_scanName (all : List String) {e : String} (he : e ∈ endings) :
    S.Thins (DiskCache.scanName (Path.join S.path (shardOf d)) all (d ++ e)) Digests := by
  have hnil : Digests [] := by simp [Digests]
  rw [DiskCache.scanName]
  split
  · exact (thins_removeIfPresent hd he).bind fun _ _ => .pure hnil
  split
  · next digest hending =>
    obtain rfl : d = digest :=
      hd.eq_of_append_sidecarEnding he (withoutEnding?_eq_some_iff.1 hending)
    refine (thins_readSidecar _).bind fun r _ => ?_
    split
    · exact .pure hnil
    · split
      · exact .pure (by simpa [Digests] using hd)
      · exact (thins_removeFiles hd).bind fun _ _ => .pure hnil
    · exact (thins_removeFiles hd).bind fun _ _ => .pure hnil
  · split
    · split
      · exact .pure hnil
      · exact (thins_removeIfPresent hd he).bind fun _ _ => .pure hnil
    · exact .pure hnil

omit hd in
theorem Digests.append {a b : List (String × IndexedEntry)} (ha : Digests a) (hb : Digests b) :
    Digests (a ++ b) := fun p hp =>
  (List.mem_append.1 hp).elim (ha p) (hb p)

omit hd in
theorem thins_scanNames (all : List String) {names : List String}
    (hnames : ∀ n ∈ names,
      ∃ d' e, IsDigest d' ∧ e ∈ endings ∧ n = d' ++ e ∧ shardOf d' = shardOf d) :
    S.Thins (DiskCache.scanNames (Path.join S.path (shardOf d)) all names) Digests := by
  induction names with
  | nil => exact .pure (by simp [Digests])
  | cons n names ih =>
    obtain ⟨d', e, hd', he, rfl, hshard⟩ := hnames n (List.mem_cons_self ..)
    refine Thins.bind (P := Digests) ?_ fun here hhere =>
      (ih fun m hm => hnames m (List.mem_cons_of_mem _ hm)).bind fun rest hrest =>
        .pure (hhere.append hrest)
    rw [← hshard]
    exact thins_scanName hd' all he

theorem thins_scanShard :
    S.Thins (DiskCache.scanShard (Path.join S.path (shardOf d))) Digests := by
  refine Thins.bind (P := fun _ => True) (.file _ (reading _ fun _ _ _ _ => trivial)) fun kind _ => ?_
  split
  · exact Thins.bind (P := fun names => ∀ n ∈ names,
        ∃ d' e, IsDigest d' ∧ e ∈ endings ∧ n = d' ++ e ∧ shardOf d' = shardOf d)
      (.file _ (reading _ fun v h names hnames n hn => h.readDir_shard hd hnames hn))
      fun names hnames => thins_scanNames _ hnames
  · exact .pure (by simp [Digests])

omit hd in
theorem thins_scanShards {names : List String}
    (hnames : ∀ n ∈ names, ∃ d, IsDigest d ∧ n = shardOf d) :
    S.Thins (DiskCache.scanShards S.path names) Digests := by
  induction names with
  | nil => exact .pure (by simp [Digests])
  | cons n names ih =>
    obtain ⟨d, hd, rfl⟩ := hnames n (List.mem_cons_self ..)
    exact (thins_scanShard hd).bind fun here hhere =>
      (ih fun m hm => hnames m (List.mem_cons_of_mem _ hm)).bind fun rest hrest =>
        .pure (hhere.append hrest)

end Scan

theorem thins_scan : S.Thins DiskCache.scan Digests := by
  refine .get_bind fun s hs => ?_
  rw [hs.directory]
  refine Thins.bind (P := fun r => ∀ names, r = .ok names →
    ∀ n ∈ names, ∃ d, IsDigest d ∧ n = shardOf d) (.files (reading _
      fun v h names hnames n hn => h.readDir hnames hn)) (fun r hr => ?_) s hs
  split
  · exact thins_scanShards (hr _ rfl)
  · exact .pure (by simp [Digests])
  · exact .throw _

theorem thins_ensureIndex : S.Thins DiskCache.ensureIndex := by
  refine .get_bind fun s hs => ?_
  split
  · refine (thins_scan.bind fun l hl => ?_ : S.Thins _) s hs
    split
    · exact .throw _
    · next index hindex =>
      refine fun s hs => ⟨⟨⟨hs.directory, hs.site, fun p hp => ?_⟩, .refl _⟩, fun _ _ => trivial⟩
      exact hl p (DiskIndex.mem_of_ofList? hindex hp)
  · exact Thins.pure trivial s hs

theorem thins_removeVictims {victims : List (String × IndexedEntry)} (h : Digests victims) :
    S.Thins (DiskCache.removeVictims victims) := by
  induction victims with
  | nil => exact .pure trivial
  | cons p victims ih =>
    exact (thins_removeFiles (h p (List.mem_cons_self ..))).bind fun _ _ =>
      ih fun q hq => h q (List.mem_cons_of_mem _ hq)

/-! ## Storing a value -/

theorem Replaced.of_thinner {v v' : Volume} {d : String} {content : ByteArray} (hsite : S.Site v')
    (h : S.Thinner v v') : S.Replaced v v' d content :=
  ⟨hsite, fun d' c hd' hvalue => .inl (h d' c hd' hvalue)⟩

theorem Thinner.replaced {v₁ v₂ v₃ : Volume} {d : String} {content : ByteArray}
    (h : S.Thinner v₁ v₂) (h' : S.Replaced v₂ v₃ d content) : S.Replaced v₁ v₃ d content :=
  ⟨h'.site, fun d' c hd' hvalue => (h'.value d' c hd' hvalue).imp_left (h d' c hd')⟩

/-- What storing a value may leave: a disk layer in order, the old value or the new one, which is
there and no other if the answer says so, and of the other values those that were there. -/
structure Stored (S : Shelf) (s s' : DiskState) (r : Except CacheError Bool) (d : String)
    (content : ByteArray) : Prop where
  ready : S.Ready s'
  replaced : S.Replaced s.drive.volume s'.drive.volume d content
  value : r = .ok true → ∀ c, S.fileAt s'.drive.volume d valueEnding = some c → c = content

theorem Stored.of_thinned {s s' : DiskState} {r : Except CacheError Bool} {d : String}
    {content : ByteArray} (h : S.Thinned s s') (hr : r ≠ .ok true) : S.Stored s s' r d content :=
  ⟨h.ready, .of_thinner h.ready.site h.thinner, fun hok => absurd hok hr⟩

theorem Stored.after {s₁ s₂ s₃ : DiskState} {r : Except CacheError Bool} {d : String}
    {content : ByteArray} (h : S.Thinned s₁ s₂) (h' : S.Stored s₂ s₃ r d content) :
    S.Stored s₁ s₃ r d content :=
  ⟨h'.ready, h.thinner.replaced h'.replaced, h'.value⟩

/-- Going on after an operation that only takes values away. -/
theorem Thins.bind_stored {α : Type} {P : α → Prop} {x : DiskM α} {f : α → DiskM Bool} {d : String}
    {content : ByteArray} (hx : S.Thins x P)
    (hf : ∀ a s, P a → S.Ready s → S.Stored s ((f a).run.run s).2 ((f a).run.run s).1 d content)
    (s : DiskState) (hs : S.Ready s) :
    S.Stored s ((x >>= f).run.run s).2 ((x >>= f).run.run s).1 d content := by
  obtain ⟨hthin, hpost⟩ := hx s hs
  rcases hrun : x.run.run s with ⟨e | a, s'⟩
  · rw [hrun] at hthin
    rw [run_bind_error hrun]
    exact .of_thinned hthin (by simp)
  · rw [hrun] at hthin hpost
    rw [run_bind_ok hrun]
    exact .after hthin (hf a s' (hpost a rfl) hthin.ready)

theorem stored_writeEntry {d : String} (hd : IsDigest d) (content : ByteArray) (m : Sidecar)
    (s : DiskState) (hs : S.Ready s) :
    let op : DiskM Bool := do
      tryCatch (DiskCache.writeEntry d content m) fun e => do
        DiskM.modifyIndex (·.remove d)
        throw e
      return true
    S.Stored s (op.run.run s).2 (op.run.run s).1 d content := by
  intro op
  obtain ⟨hcache, hreplaced, hfiles, -⟩ := wrote_writeEntry hs.directory hs.site hd content m
  rcases hrun : (DiskCache.writeEntry d content m).run.run s with ⟨e | ⟨⟩, s'⟩
  · rw [hrun] at hcache hreplaced
    have hop : op.run.run s = (.error e,
        { s' with cache := { s'.cache with index := s'.cache.index.remove d } }) := by
      simp only [op]
      rw [run_bind, run_tryCatch, hrun]
      rfl
    -- The value may have been written before the failure, so that it is there with no entry in the
    -- index.
    rw [hop]
    refine ⟨⟨?_, hreplaced.site, fun p hp => ?_⟩, hreplaced, by simp⟩
    · exact (congrArg DiskCache.directory hcache).trans hs.directory
    · exact hs.digests p (hcache ▸ DiskIndex.mem_of_remove hp)
  · rw [hrun] at hcache hreplaced hfiles
    have hop : op.run.run s = (.ok true, s') := by
      simp only [op]
      rw [run_bind, run_tryCatch, hrun]
      rfl
    rw [hop]
    refine ⟨⟨hcache ▸ hs.directory, hreplaced.site, hcache ▸ hs.digests⟩, hreplaced,
      fun _ c hvalue => ?_⟩
    rw [(hfiles rfl).2 d valueEnding hd, entryAfter, if_pos rfl, if_pos rfl] at hvalue
    cases hvalue
    rfl

/-- Storing a value leaves the old value, the new one or none, and the new one or none if it says so,
whatever faults it meets. -/
theorem stored_set (now : UInt64) (key : String) (content : ByteArray) (s : DiskState)
    (hs : S.Ready s) :
    S.Stored s ((DiskCache.set now key content).run.run s).2
      ((DiskCache.set now key content).run.run s).1 (keyDigest key) content := by
  have hd := isDigest_keyDigest key
  rw [DiskCache.set, run_bind_ok (run_get s)]
  split
  · exact .of_thinned (.refl hs) (fun h => by cases h)
  refine thins_ensureIndex.bind_stored (fun _ s _ hs => ?_) s hs
  rw [run_bind_ok (run_get s)]
  split
  · rw [run_bind_ok (DiskM.run_modifyIndex _ s)]
    exact .of_thinned (Thins.modifyIndex (fun _ _ hp => DiskIndex.mem_of_remove hp) s hs).1
      (fun h => by cases h)
  · next victims index hreserve =>
    have hvictims : Digests victims := fun p hp =>
      hs.digests p ((DiskIndex.mem_of_reserve hreserve).1 hp)
    have hindex : Digests index.entries.entries := fun p hp => by
      rcases (DiskIndex.mem_of_reserve hreserve).2 hp with rfl | hp
      · exact hd
      · exact hs.digests p hp
    rw [run_bind_ok (DiskM.run_modifyIndex _ s)]
    have hthin : S.Thinned s { s with cache := { s.cache with index } } :=
      ⟨⟨hs.directory, hs.site, hindex⟩, .refl _⟩
    exact .after hthin ((thins_removeVictims hvictims).bind_stored
      (fun _ s _ hs => stored_writeEntry hd content _ s hs) _ hthin.ready)

end Shelf

end CodeGraph.Cache
