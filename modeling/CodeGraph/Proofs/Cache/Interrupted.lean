import CodeGraph.Proofs.Cache.AnyDirectory
import CodeGraph.Proofs.Cache.Index
import CodeGraph.Proofs.Cache.Seeding

/-!
# Storing a value that is interrupted

Storing a value takes victims away, then writes the value, then the sidecar, and a fault may end it
anywhere on the way. What is then in the directory and in the index is told by the step at which it
ended (`Shelf.Interrupted`, `Shelf.interrupted_set`). Two of the steps leave the index at odds with the
directory: a victim that cannot be taken away leaves the index as if all of them were gone and the new
entry were there, and a new entry that cannot be written leaves the index without the old one.
-/

namespace CodeGraph.Cache

open DiskCache (valueEnding sidecarEnding unfinishedEnding)

namespace Files

/-- The files with another content of one. -/
def put (F : Files) {d : String} (hd : IsDigest d) (e : String) (o : Option ByteArray) : Files where
  content d' e' := if d' = d ∧ e' = e then o else F.content d' e'
  shard := F.shard
  digest d' e' h := by
    by_cases hsame : d' = d ∧ e' = e
    · exact hsame.1 ▸ hd
    · rw [if_neg hsame] at h
      exact F.digest d' e' h

/-- The files where there is a directory for a digest. -/
def opened (F : Files) (d : String) : Files :=
  { F with shard := fun d' => d' = d }

/-- The files with one that has been written under another name and moved to its place. -/
def written (F : Files) {d : String} (hd : IsDigest d) (e : String) (content : ByteArray) : Files :=
  (F.put hd (e ++ unfinishedEnding) none).put hd e (some content)

/-- The files with those of an entry. -/
def stored (F : Files) {d : String} (hd : IsDigest d) (content : ByteArray) (m : Sidecar) : Files :=
  ((F.opened d).written hd valueEnding content).written hd sidecarEnding m.encode

variable {F G : Files} {d : String} {hd : IsDigest d}

theorem content_put_self (F : Files) (hd : IsDigest d) (e : String) (o : Option ByteArray) :
    (F.put hd e o).content d e = o :=
  if_pos ⟨rfl, rfl⟩

theorem content_put_of_ne (F : Files) (hd : IsDigest d) {e : String} (o : Option ByteArray)
    {d' e' : String} (h : d' ≠ d ∨ e' ≠ e) : (F.put hd e o).content d' e' = F.content d' e' :=
  if_neg fun hsame => h.elim (fun hne => hne hsame.1) fun hne => hne hsame.2

theorem put_self (F : Files) (hd : IsDigest d) (e : String) :
    F.put hd e (F.content d e) = F := by
  have hcontent : (F.put hd e (F.content d e)).content = F.content := by
    funext d' e'
    by_cases hsame : d' = d ∧ e' = e
    · rw [hsame.1, hsame.2, content_put_self]
    · exact if_neg hsame
  cases F
  simp only [put, mk.injEq, and_true]
  exact hcontent

theorem put_put (F : Files) (hd : IsDigest d) (e : String) (o o' : Option ByteArray) :
    (F.put hd e o).put hd e o' = F.put hd e o' := by
  simp only [put, mk.injEq, and_true]
  funext d' e'
  split
  · rfl
  · rfl

theorem content_written_self (F : Files) (hd : IsDigest d) (e : String) (content : ByteArray) :
    (F.written hd e content).content d e = some content :=
  content_put_self _ hd e _

theorem content_written_of_ne (F : Files) (hd : IsDigest d) {e : String} (content : ByteArray)
    {d' e' : String} (h : d' ≠ d ∨ e' ≠ e ∧ e' ≠ e ++ unfinishedEnding) :
    (F.written hd e content).content d' e' = F.content d' e' := by
  rw [written, content_put_of_ne _ hd _ (h.imp_right And.left),
    content_put_of_ne _ hd _ (h.imp_right And.right)]

theorem stored_value (F : Files) (hd : IsDigest d) (content : ByteArray) (m : Sidecar) :
    (F.stored hd content m).content d valueEnding = some content := by
  rw [stored, content_written_of_ne _ hd _ (.inr (by decide)), content_written_self]

theorem stored_sidecar (F : Files) (hd : IsDigest d) (content : ByteArray) (m : Sidecar) :
    (F.stored hd content m).content d sidecarEnding = some m.encode :=
  content_written_self ..

theorem stored_others (F : Files) (hd : IsDigest d) (content : ByteArray) (m : Sidecar)
    {d' : String} (e : String) (hne : d' ≠ d) :
    (F.stored hd content m).content d' e = F.content d' e := by
  rw [stored, content_written_of_ne _ hd _ (.inl hne), content_written_of_ne _ hd _ (.inl hne)]
  rfl

/-- What a write of an entry may leave that has failed: the old value or the new one beside the old
sidecar, and the other entries. -/
structure Drafted (F G : Files) (d : String) (content : ByteArray) : Prop where
  others : ∀ d' e, d' ≠ d → G.content d' e = F.content d' e
  sidecar : G.content d sidecarEnding = F.content d sidecarEnding
  value : G.content d valueEnding = F.content d valueEnding ∨
    G.content d valueEnding = some content

theorem Drafted.refl (F : Files) (d : String) (content : ByteArray) : F.Drafted F d content :=
  ⟨fun _ _ _ => rfl, rfl, .inl rfl⟩

theorem drafted_value (F : Files) (hd : IsDigest d) (content : ByteArray) (o : Option ByteArray) :
    F.Drafted ((F.opened d).put hd (valueEnding ++ unfinishedEnding) o) d content := by
  refine ⟨?_, ?_, .inl ?_⟩
  · intro d' e hne
    exact content_put_of_ne _ hd _ (.inl hne)
  · exact content_put_of_ne _ hd _ (.inr (by decide))
  · exact content_put_of_ne _ hd _ (.inr (by decide))

/-- Before the sidecar is in its place the old one stands beside the new value. -/
theorem drafted_sidecar (F : Files) (hd : IsDigest d) (content : ByteArray) (o : Option ByteArray) :
    F.Drafted (((F.opened d).written hd valueEnding content).put hd
      (sidecarEnding ++ unfinishedEnding) o) d content := by
  refine ⟨?_, ?_, .inr ?_⟩
  · intro d' e hne
    rw [content_put_of_ne _ hd _ (.inl hne), content_written_of_ne _ hd _ (.inl hne)]
    rfl
  · rw [content_put_of_ne _ hd _ (.inr (by decide)),
      content_written_of_ne _ hd _ (.inr (by decide))]
    rfl
  · rw [content_put_of_ne _ hd _ (.inr (by decide)), content_written_self]

end Files

namespace Shelf

variable {S : Shelf} {clean : Prop} {c : DiskCache} {F : Files} {s s' : DiskState} {d e : String}
  {content : ByteArray}

/-! ## Writing -/

/-- A file that is changed is another content of it. -/
theorem Has.changed (h : S.Has clean c F s) (hd : IsDigest d) {o : Option ByteArray}
    (hcache : s'.cache = s.cache) (hfaults : s'.drive.faults <:+ s.drive.faults)
    (hchanged : S.Changed s.drive.volume s'.drive.volume d e o) :
    S.Has clean c (F.put hd e o) s' := by
  refine ⟨hcache.trans h.cache, h.directory, ?_, ?_, .stocked hchanged.stocked, ?_,
    fun d' hshard => hchanged.shard d' (h.shard d' hshard)⟩
  · exact fun f hf => h.truthful f (hfaults.mem hf)
  · intro hclean
    rw [h.faultless hclean] at hfaults
    exact List.suffix_nil.1 hfaults
  · intro d' e' hd'
    rw [hchanged.file d' e' hd', h.content d' e' hd']
    rfl

theorem Has.open (h : S.Has clean c F s) (hd : IsDigest d) (hshard : F.shard d) : S.Open s d := by
  obtain ⟨hstocked, hthere, -⟩ := h.leads_shard hd hshard
  exact ⟨h.cache ▸ h.directory, hstocked, hthere⟩

section Whole

variable (hd : IsDigest d) (hshard : F.shard d) (he : e ∈ endings)

include hshard he

theorem ends_writeFile (path : String) :
    Ends (S.Has clean c F) (DiskM.file path (FileM.writeFile (filePath S.path d e) content))
      (fun _ => S.Has clean c (F.put hd e (some content)))
      (fun _ s => ∃ o, S.Has clean c (F.put hd e o) s) := by
  refine ⟨fun s h => ?_⟩
  obtain ⟨hcache, hwrite, -⟩ := run_writeFile (h.open hd hshard) hd he path content
  rcases hrun : (DiskM.file path (FileM.writeFile (filePath S.path d e) content)).run.run s with
    ⟨r, s'⟩
  rw [hrun] at hcache hwrite
  have hfaults := DiskM.faults_of_run hrun
  have hsuffix : s'.drive.faults <:+ s.drive.faults := hfaults ▸ List.tail_suffix _
  rcases hwrite with ⟨rfl, hchanged⟩ | ⟨⟨err, rfl⟩, hsame | ⟨torn, hchanged⟩⟩
  · exact h.changed hd hcache hsuffix hchanged
  · refine ⟨F.content d e, ?_⟩
    rw [Files.put_self]
    exact h.used hcache hsame hfaults
  · exact ⟨torn, h.changed hd hcache hsuffix hchanged⟩

theorem ends_rename {e' : String} (he' : e' ∈ endings) (hne : e ≠ e')
    (hcontent : F.content d e = some content) (path : String) :
    Ends (S.Has clean c F)
      (DiskM.file path (FileM.rename (filePath S.path d e) (filePath S.path d e')))
      (fun _ => S.Has clean c ((F.put hd e none).put hd e' (some content)))
      (fun _ => S.Has clean c F) := by
  refine ⟨fun s h => ?_⟩
  have hfile : S.fileAt s.drive.volume d e = some content := (h.content d e hd).trans hcontent
  obtain ⟨hcache, hrename, -⟩ := run_rename (h.open hd hshard) hd he he' hne hfile path
  rcases hrun : (DiskM.file path
    (FileM.rename (filePath S.path d e) (filePath S.path d e'))).run.run s with ⟨r, s'⟩
  rw [hrun] at hcache hrename
  have hfaults := DiskM.faults_of_run hrun
  rcases hrename with ⟨rfl, v, hremoved, hput⟩ | ⟨⟨err, rfl⟩, hsame⟩
  · have hsuffix : s'.drive.faults <:+ s.drive.faults := hfaults ▸ List.tail_suffix _
    have hmoved : S.Has clean c (F.put hd e none) { s with drive := ⟨v, s.drive.faults⟩ } :=
      h.changed hd rfl (List.suffix_refl _) hremoved
    exact hmoved.changed hd hcache hsuffix hput
  · exact h.used hcache hsame hfaults

/-- A file is written whole, or something is left in the one that it is written to first. -/
theorem ends_writeWhole (hdraft : e ++ unfinishedEnding ∈ endings)
    (hne : e ++ unfinishedEnding ≠ e) :
    Ends (S.Has clean c F) (DiskCache.writeWhole (filePath S.path d e) content)
      (fun _ => S.Has clean c (F.written hd e content))
      (fun _ s => ∃ o, S.Has clean c (F.put hd (e ++ unfinishedEnding) o) s) := by
  unfold DiskCache.writeWhole
  rw [filePath_append S.path hd he hdraft]
  have hcontent := Files.content_put_self F hd (e ++ unfinishedEnding) (some content)
  have hshard' : (F.put hd (e ++ unfinishedEnding) (some content)).shard d := hshard
  refine .bind (ends_writeFile hd hshard hdraft _) fun _ => ?_
  refine (ends_rename hd hshard' hdraft he hne hcontent _).imp (fun _ h => h) ?_ ?_
  · intro _ s h
    rw [Files.put_put] at h
    exact h
  · exact fun _ s h => ⟨some content, h⟩

end Whole

section Entry

variable (hd : IsDigest d)

include hd

theorem ends_makeDirs :
    Ends (S.Has clean c F)
      (DiskM.file (Path.join S.path (shardOf d)) (FileM.makeDirs (Path.join S.path (shardOf d))))
      (fun _ => S.Has clean c (F.opened d)) (fun _ => S.Has clean c F) := by
  refine ⟨fun s h => ?_⟩
  have hdir : s.cache.directory = S.path := h.cache ▸ h.directory
  obtain ⟨hcache, hmake, -⟩ := run_makeDirs hdir h.site hd
  rcases hrun : (DiskM.file (Path.join S.path (shardOf d))
    (FileM.makeDirs (Path.join S.path (shardOf d)))).run.run s with ⟨r, s'⟩
  rw [hrun] at hcache hmake
  have hfaults := DiskM.faults_of_run hrun
  rcases hmake with ⟨rfl, hopen, hfile⟩ | ⟨⟨err, rfl⟩, hsame⟩
  · refine ⟨hcache.trans h.cache, h.directory, ?_, ?_, .stocked hopen.stocked, ?_, ?_⟩
    · rw [hfaults]
      exact h.truthful.tail
    · intro hclean
      rw [hfaults, h.faultless hclean, List.tail_nil]
    · intro d' e' hd'
      rw [hfile]
      exact h.content d' e' hd'
    · rintro d' rfl
      exact hopen.shard
  · exact h.used hcache hsame hfaults

/-- **An entry is written, or the old one is still there but for its value.** -/
theorem ends_writeEntry (m : Sidecar) :
    Ends (S.Has clean c F) (DiskCache.writeEntry d content m)
      (fun _ => S.Has clean c (F.stored hd content m))
      (fun _ s => ∃ G, S.Has clean c G s ∧ F.Drafted G d content) := by
  have hvalueDraft : valueEnding ++ unfinishedEnding ∈ endings := by decide
  have hsidecarDraft : sidecarEnding ++ unfinishedEnding ∈ endings := by decide
  refine .get_bind_kept fun s h => ?_
  have hshard : Path.join s.cache.directory ((DiskCache.shard? d).getD "") =
      Path.join S.path (shardOf d) := by
    rw [hd.shard?_eq, h.cache, h.directory]
    rfl
  rw [hshard]
  refine .bind ((ends_makeDirs hd).imp_error fun _ s h => ⟨F, h, .refl F d content⟩) fun _ => ?_
  have hopened : (F.opened d).shard d := rfl
  refine ends_entryPath_bind hd (.bind ((ends_writeWhole hd hopened valueEnding_mem hvalueDraft
    (by decide)).imp_error ?_) fun _ => ?_)
  · rintro _ s ⟨o, h⟩
    exact ⟨_, h, Files.drafted_value F hd content o⟩
  have hopened' : ((F.opened d).written hd valueEnding content).shard d := rfl
  refine ends_entryPath_bind hd ((ends_writeWhole hd hopened' sidecarEnding_mem hsidecarDraft
    (by decide)).imp_error ?_)
  rintro _ s ⟨o, h⟩
  exact ⟨_, h, Files.drafted_sidecar F hd content o⟩

end Entry

/-! ## Taking victims away -/

/-- Victims are taken away in turn, up to one whose files cannot be. -/
theorem ends_removeVictims {victims : List (String × IndexedEntry)}
    (hdigests : ∀ v ∈ victims, IsDigest v.1) :
    Ends (S.Has clean c F) (DiskCache.removeVictims victims)
      (fun _ => S.Has clean c (F.without (victims.map Prod.fst)))
      (fun err s => ∃ done v rest, victims = done ++ v :: rest ∧
        (∃ e ∈ [valueEnding, sidecarEnding], ∃ o, err = .io (filePath S.path v.1 e) o) ∧
        (S.Has clean c (F.without (done.map Prod.fst)) s ∨
          S.Has clean c ((F.without (done.map Prod.fst)).drop v.1 valueEnding) s)) := by
  induction victims generalizing F with
  | nil =>
    rw [List.map_nil, Files.without_nil]
    exact .pure fun _ h => h
  | cons v victims ih =>
    refine .bind ((ends_removeFiles (hdigests v (List.mem_cons_self ..))).imp_error ?_) fun _ => ?_
    · rintro err s ⟨-, hleft, hnamed⟩
      refine ⟨[], v, victims, rfl, hnamed, ?_⟩
      rw [List.map_nil, Files.without_nil]
      exact hleft
    refine (ih fun w hw => hdigests w (List.mem_cons_of_mem _ hw)).imp (fun _ h => h) ?_ ?_
    · intro _ s h
      rw [Files.without_cons] at h
      exact h
    · rintro err s ⟨done, w, rest, rfl, hnamed, hleft⟩
      rw [Files.without_cons] at hleft
      exact ⟨v :: done, w, rest, rfl, hnamed, hleft⟩

end Shelf

/-! ## Storing -/

/-- The sidecar that is written for a value. -/
def DiskCache.sidecarFor (now : UInt64) (key : String) (content : ByteArray) : Sidecar :=
  ⟨key, now, UInt64.ofNat content.size, Sidecar.currentVersion⟩

theorem DiskCache.key_not_mem {c : DiskCache} {now : UInt64} {key : String} {content : ByteArray}
    {victims : List (String × IndexedEntry)} {index : DiskIndex}
    (h : c.reserveFor now key content = some (victims, index)) :
    keyDigest key ∉ victims.map Prod.fst := by
  intro hmem
  obtain ⟨v, hv, hsame⟩ := List.mem_map.1 hmem
  exact ((DiskIndex.reserve_spec h).1 v hv).1 hsame

/-- Nothing goes for a value beside which only the old one of its key is there. -/
theorem DiskCache.reserveFor_of_alone {c : DiskCache} {now : UInt64} {key : String}
    {content : ByteArray} (hexact : c.index.Exact)
    (halone : ∀ d, d ≠ keyDigest key → c.index.entries.get? d = none)
    (hsize : ¬ c.maxSize < UInt64.ofNat content.size) :
    ∃ index, c.reserveFor now key content = some ([], index) := by
  have hroom : (UInt64.ofNat content.size).toNat ≤ c.maxSize.toNat :=
    UInt64.le_iff_toNat_le.1 (UInt64.not_lt.1 hsize)
  have hfits : (c.index.remove (keyDigest key)).weight + (UInt64.ofNat content.size).toNat ≤
      c.maxSize.toNat := by
    rw [DiskIndex.weight_remove_of_alone halone, Nat.zero_add]
    exact hroom
  obtain ⟨index, hreserve, -⟩ :=
    DiskIndex.reserve_of_fits (e := ⟨key, now, UInt64.ofNat content.size⟩) hexact hfits
  exact ⟨index, hreserve⟩

/-- A store for which nothing need go fails as the write of its entry does, and forgets the entry. -/
theorem DiskCache.run_set_of_room {s s' : DiskState} {now : UInt64} {key : String}
    {content : ByteArray} {index : DiskIndex} {e : CacheError} (hseeded : s.cache.seeded = true)
    (hsize : ¬ s.cache.maxSize < UInt64.ofNat content.size)
    (hreserve : s.cache.reserveFor now key content = some ([], index))
    (hwrite : (writeEntry (keyDigest key) content (sidecarFor now key content)).run.run
      { s with cache := { s.cache with index } } = (.error e, s')) :
    (set now key content).run.run s = (.error e,
      { s' with cache := { s'.cache with index := s'.cache.index.remove (keyDigest key) } }) := by
  rw [set, run_bind_ok (run_get s)]
  simp only [if_neg hsize]
  rw [reserveFor] at hreserve
  rw [run_bind_ok (ensureIndex_of_seeded hseeded), run_bind_ok (run_get s)]
  simp only [hreserve]
  rw [run_bind_ok (DiskM.run_modifyIndex _ s), removeVictims, run_bind_ok (run_pure _ _), run_bind,
    run_tryCatch]
  rw [sidecarFor] at hwrite
  rw [hwrite]
  rfl

namespace Shelf

open DiskCache (reserveFor sidecarFor)

variable {S : Shelf} {clean : Prop} {c : DiskCache} {F : Files} {s s' : DiskState}
  {content : ByteArray}

/-- What storing a value has come to, from the index and the files that there are when the index has
been made. -/
inductive Interrupted (S : Shelf) (clean : Prop) (c : DiskCache) (F : Files) (now : UInt64)
    (key : String) (content : ByteArray) : Except CacheError Bool → DiskState → Prop
  /-- The value and the others are more than a word can count. -/
  | overflow {s' : DiskState} : c.reserveFor now key content = none →
      S.Has clean { c with index := c.index.remove (keyDigest key) } F s' →
      Interrupted S clean c F now key content (.error .overflow) s'
  /-- A file of a victim could not be taken away; the index is the one with the new entry. -/
  | evicting {s' : DiskState} {gone rest : List (String × IndexedEntry)}
      {v : String × IndexedEntry} {index : DiskIndex} {e : String} {o : OsError} :
      c.reserveFor now key content = some (gone ++ v :: rest, index) →
      e ∈ [valueEnding, sidecarEnding] →
      S.Has clean { c with index } (F.without (gone.map Prod.fst)) s' ∨
        S.Has clean { c with index } ((F.without (gone.map Prod.fst)).drop v.1 valueEnding) s' →
      Interrupted S clean c F now key content (.error (.io (filePath S.path v.1 e) o)) s'
  /-- The entry could not be written; the index is the one without any entry of the key. -/
  | writing {s' : DiskState} {victims : List (String × IndexedEntry)} {index : DiskIndex}
      {G : Files} {err : CacheError} :
      c.reserveFor now key content = some (victims, index) →
      (F.without (victims.map Prod.fst)).Drafted G (keyDigest key) content →
      S.Has clean { c with index := index.remove (keyDigest key) } G s' →
      Interrupted S clean c F now key content (.error err) s'
  | stored {s' : DiskState} {victims : List (String × IndexedEntry)} {index : DiskIndex} :
      c.reserveFor now key content = some (victims, index) →
      S.Has clean { c with index } ((F.without (victims.map Prod.fst)).stored
        (isDigest_keyDigest key) content (sidecarFor now key content)) s' →
      Interrupted S clean c F now key content (.ok true) s'

/-- **A store ends in one of these ways once the index has been made.** -/
theorem interrupted_set (now : UInt64) (key : String) {s₁ : DiskState}
    (hsize : ¬ s.cache.maxSize < UInt64.ofNat content.size)
    (hmade : DiskCache.ensureIndex.run.run s = (.ok (), s₁)) (h : S.Has clean c F s₁)
    (hdigests : ∀ p ∈ c.index.entries.entries, IsDigest p.1) :
    S.Interrupted clean c F now key content ((DiskCache.set now key content).run.run s).1
      ((DiskCache.set now key content).run.run s).2 := by
  have hd := isDigest_keyDigest key
  rw [DiskCache.set, run_bind_ok (run_get s)]
  simp only [if_neg hsize]
  rw [run_bind_ok hmade, run_bind_ok (run_get s₁), h.cache]
  rcases hreserve : c.index.reserve (keyDigest key) ⟨key, now, UInt64.ofNat content.size⟩ c.maxSize
    with _ | ⟨victims, index⟩
  · simp only
    rw [run_bind_ok (DiskM.run_modifyIndex _ s₁)]
    exact .overflow hreserve (h.modifyIndex (·.remove (keyDigest key)))
  -- The index counts the new entry and no victim from here on, whatever becomes of the files.
  have hvictims : ∀ v ∈ victims, IsDigest v.1 := fun v hv =>
    hdigests v ((DiskIndex.mem_of_reserve hreserve).1 hv)
  simp only
  rw [run_bind_ok (DiskM.run_modifyIndex _ s₁)]
  have hmoved : S.Has clean { c with index } F { s₁ with cache := { s₁.cache with index } } :=
    h.modifyIndex fun _ => index
  rcases hevict : (DiskCache.removeVictims victims).run.run
    { s₁ with cache := { s₁.cache with index } } with ⟨err | ⟨⟩, s₂⟩
  · obtain ⟨gone, v, rest, rfl, ⟨e, he, o, rfl⟩, hleft⟩ :=
      (ends_removeVictims hvictims).of_error hmoved hevict
    rw [run_bind_error hevict]
    exact .evicting hreserve he hleft
  have hevicted := (ends_removeVictims hvictims).of_ok hmoved hevict
  rw [run_bind_ok hevict, run_bind, run_tryCatch]
  rcases hwrite : (DiskCache.writeEntry (keyDigest key) content
    ⟨key, now, UInt64.ofNat content.size, Sidecar.currentVersion⟩).run.run s₂ with ⟨err | ⟨⟩, s₃⟩
  · obtain ⟨G, hG, hdrafted⟩ := (ends_writeEntry hd _).of_error hevicted hwrite
    exact .writing hreserve hdrafted (hG.modifyIndex (·.remove (keyDigest key)))
  · exact .stored hreserve ((ends_writeEntry hd _).of_ok hevicted hwrite)

end Shelf

end CodeGraph.Cache
