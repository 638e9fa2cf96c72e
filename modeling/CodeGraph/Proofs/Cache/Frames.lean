import CodeGraph.Proofs.Cache.Runs
import CodeGraph.Proofs.Cache.Programs
import CodeGraph.Proofs.Volume.Standing

/-!
# What the disk layer keeps

Whether something stays as it is in every run is a question about the operations on files that the disk
layer carries out: it takes files away by the names in its directory and by digests, and writes and
moves the files of digests of keys. A `Frame` is what all of these keep, told of the volume alone; every
call but clearing then keeps it, whatever the directory holds and whatever faults are met
(`Frame.keeps_perform`, `Frame.keeps_runs`).
-/

namespace CodeGraph.Cache

open DiskCache (valueEnding sidecarEnding unfinishedEnding shard? withoutEnding?)

/-- The names that a sub-directory has listed, each listing made on a volume such as is given. -/
def Listed (J : Volume → Prop) (dir n : String) (names : List String) : Prop :=
  (∃ u all, J u ∧ u.readDir dir = .ok all ∧ n ∈ all) ∧
    ∃ u, J u ∧ u.readDir (Path.join dir n) = .ok names

/-- Whether a scan takes away the file of a name: an unfinished one, or a value whose sidecar is not
among all names. -/
def Swept (all : List String) (name : String) : Prop :=
  (withoutEnding? unfinishedEnding name).isSome ∨
    (withoutEnding? unfinishedEnding name = none ∧ withoutEnding? sidecarEnding name = none ∧
      ∃ d, withoutEnding? valueEnding name = some d ∧ d ++ sidecarEnding ∉ all)

/-- What every operation on files of the disk layer keeps. The digests that it meets are those of keys
and the names of sidecars. -/
structure Frame (dir : String) (J : Volume → Prop) (digests : String → Prop) : Prop where
  digest : ∀ {d}, IsDigest d → digests d
  sidecar : ∀ {n names d}, Listed J dir n names → d ++ sidecarEnding ∈ names → digests d
  remove : ∀ {v d shard e r i}, J v → digests d → shard? d = some shard →
    e = valueEnding ∨ e = sidecarEnding →
    v.find false (Path.join (Path.join dir shard) (d ++ e)) = .ok (r, i) → i ≠ .directory →
    J (v.remove r)
  sweep : ∀ {v n names name r i}, J v → Listed J dir n names → name ∈ names → Swept names name →
    v.find false (Path.join (Path.join dir n) name) = .ok (r, i) → i ≠ .directory → J (v.remove r)
  make : ∀ {v w d}, J v → IsDigest d → v.makeDirs (Path.join dir (shardOf d)) = .ok w → J w
  left : ∀ {v d}, J v → IsDigest d → J (v.dirsLeft (Path.join dir (shardOf d)))
  write : ∀ {v d e r i content}, J v → IsDigest d → e = valueEnding ∨ e = sidecarEnding →
    v.resolve true (filePath dir d e ++ unfinishedEnding) = .ok (r, i) → i ≠ some .directory →
    J (v.put r (.file content))
  move : ∀ {v d e p i r j}, J v → IsDigest d → e = valueEnding ∨ e = sidecarEnding →
    v.find false (filePath dir d e ++ unfinishedEnding) = .ok (p, i) → i ≠ .directory →
    v.resolve false (filePath dir d e) = .ok (r, j) → j ≠ some .directory → p ≠ r →
    J ((v.remove p).put r i)

/-- A disk layer on a directory whose volume and whose index, once it has been made, are such as are
given. -/
structure Framed (dir : String) (J : Volume → Prop) (digests : String → Prop) (s : DiskState) :
    Prop where
  directory : s.cache.directory = dir
  volume : J s.drive.volume
  index : s.cache.seeded = true → ∀ p ∈ s.cache.index.entries.entries, digests p.1

/-- An operation keeps what is said of a state, whether it answers or fails. -/
def Keeps {α : Type} (P : DiskState → Prop) (op : DiskM α) : Prop :=
  Ends P op (fun _ => P) fun _ => P

namespace Frame

variable {dir : String} {J : Volume → Prop} {digests : String → Prop} {α : Type}
  (F : Frame dir J digests)

/-! ## Single operations -/

theorem framed_drive {s : DiskState} (h : Framed dir J digests s) {drive : Drive}
    (hdrive : J drive.volume) : Framed dir J digests { s with drive } :=
  ⟨h.directory, hdrive, h.index⟩

/-- What is looked at is there. -/
theorem keeps_look (op : Volume → Except OsError α) :
    Ends (Framed dir J digests) (DiskM.files (FileM.reading op))
      (fun r s => (∀ a, r = .ok a → ∃ u, J u ∧ op u = .ok a) ∧ Framed dir J digests s)
      (fun _ => Framed dir J digests) := by
  refine .files fun s h => ⟨?_, ?_⟩
  · intro a ha
    exact ⟨s.drive.volume, h.volume, FileM.reading_ok ha⟩
  · refine framed_drive h ?_
    rw [FileM.reading_volume]
    exact h.volume

theorem keeps_lookFile (op : Volume → Except OsError α) (path : String) :
    Ends (Framed dir J digests) (DiskM.file path (FileM.reading op))
      (fun a s => (∃ u, J u ∧ op u = .ok a) ∧ Framed dir J digests s)
      (fun _ => Framed dir J digests) := by
  refine .bind (keeps_look op) fun r => .assume fun hr => ?_
  split
  · exact .pure fun s h => ⟨hr _ rfl, h⟩
  · exact .throw fun s h => h

/-- A change that is made whole, torn, in part or not at all. -/
theorem keeps_change {path : String} {write : Volume → Except OsError Volume}
    {torn : Nat → Volume → Volume} {short : Volume → Volume} {R : Volume → Prop}
    (hwrite : ∀ v w, J v → write v = .ok w → J w ∧ R w) (htorn : ∀ n v, J v → J (torn n v))
    (hshort : ∀ v, J v → J (short v)) :
    Ends (Framed dir J digests) (DiskM.file path (FileM.writing write torn short))
      (fun _ s => R s.drive.volume ∧ Framed dir J digests s) (fun _ => Framed dir J digests) := by
  refine .file fun s h => ?_
  rcases FileM.writing_outcome write torn short s.drive with
    ⟨w, hw, hanswer, hv⟩ | ⟨e, hanswer, hv | ⟨n, hv⟩ | ⟨-, hv⟩⟩
  · obtain ⟨hJ, hR⟩ := hwrite _ _ h.volume hw
    rw [hanswer]
    exact ⟨hv ▸ hR, framed_drive h (hv ▸ hJ)⟩
  · rw [hanswer]
    exact framed_drive h (hv ▸ h.volume)
  · rw [hanswer]
    exact framed_drive h (hv ▸ htorn n _ h.volume)
  · rw [hanswer]
    exact framed_drive h (hv ▸ hshort _ h.volume)

theorem keeps_removeIfPresent {path : String}
    (hremove : ∀ v r i, J v → v.find false path = .ok (r, i) → i ≠ .directory → J (v.remove r)) :
    Keeps (Framed dir J digests) (DiskCache.removeIfPresent path) := by
  have hop : ∀ v w, J v → v.removeFile path = .ok w → J w := by
    intro v w hv hw
    rw [Volume.removeFile] at hw
    rcases hfind : v.find false path with e | ⟨r, _ | _ | _⟩
    all_goals
      rw [hfind] at hw
      cases hw
    · exact hremove v r _ hv hfind (by simp)
    · exact hremove v r _ hv hfind (by simp)
  have htake : Keeps (Framed dir J digests) (DiskM.files (FileM.removeFile path)) := by
    refine .files fun s h => framed_drive h ?_
    rcases FileM.writing_cases (·.removeFile path) (fun _ v => v) s.drive with
      ⟨w, hw, -, hv⟩ | ⟨e, -, hv | ⟨n, hv⟩⟩
    · exact hv ▸ hop _ _ h.volume hw
    · exact hv ▸ h.volume
    · exact hv ▸ h.volume
  refine .bind htake fun r => ?_
  split
  · exact .pure fun _ h => h
  · exact .pure fun _ h => h
  · exact .throw fun _ h => h

theorem keeps_entryPath (d e : String) :
    Ends (Framed dir J digests) (DiskCache.entryPathM d e)
      (fun path s => (∃ shard, shard? d = some shard ∧
        path = Path.join (Path.join dir shard) (d ++ e)) ∧ Framed dir J digests s)
      (fun _ => Framed dir J digests) := by
  unfold DiskCache.entryPathM
  split
  · next shard hshard =>
    refine .get_bind_kept fun s hs => .pure fun t h => ⟨⟨shard, hshard, ?_⟩, h⟩
    rw [DiskCache.entryPath, hs.directory]
  · exact .throw fun _ h => h

theorem keeps_modifyIndex {f : DiskIndex → DiskIndex}
    (hf : ∀ x : DiskIndex, (∀ p ∈ x.entries.entries, digests p.1) →
      ∀ p ∈ (f x).entries.entries, digests p.1) :
    Keeps (Framed dir J digests) (DiskM.modifyIndex f) :=
  .modifyIndex fun _ h => ⟨h.directory, h.volume, fun hseeded => hf _ (h.index hseeded)⟩

theorem keeps_forget (d : String) :
    Keeps (Framed dir J digests) (DiskM.modifyIndex (·.remove d)) :=
  keeps_modifyIndex fun _ h p hp => h p (DiskIndex.mem_of_remove hp)

theorem keeps_readSidecar (path : String) :
    Keeps (Framed dir J digests) (DiskCache.readSidecar path) := by
  refine .bind (keeps_look (·.readFile path)) fun r => .assume fun _ => ?_
  split
  · split
    · exact .pure fun _ h => h
    · exact .pure fun _ h => h
  · exact .pure fun _ h => h
  · exact .throw fun _ h => h

include F

/-! ## Taking entries away -/

theorem keeps_removeFiles {d : String} (hd : digests d) :
    Keeps (Framed dir J digests) (DiskCache.removeFiles d) := by
  have hfile : ∀ e, e = valueEnding ∨ e = sidecarEnding →
      Keeps (Framed dir J digests) (do DiskCache.removeIfPresent (← DiskCache.entryPathM d e)) := by
    intro e he
    refine .bind (keeps_entryPath d e) fun path => .assume fun ⟨shard, hshard, hpath⟩ => ?_
    refine keeps_removeIfPresent fun v r i hv hfind hi => ?_
    exact F.remove hv hd hshard he (hpath ▸ hfind) hi
  refine .bind (keeps_entryPath d valueEnding) fun path => .assume fun ⟨shard, hshard, hpath⟩ =>
    .bind (keeps_removeIfPresent fun v r i hv hfind hi => ?_) fun _ => hfile sidecarEnding (.inr rfl)
  exact F.remove hv hd hshard (.inl rfl) (hpath ▸ hfind) hi

theorem keeps_removeDigest {d : String} (hd : digests d) :
    Keeps (Framed dir J digests) (DiskCache.removeDigest d) :=
  .bind (keeps_forget d) fun _ => F.keeps_removeFiles hd

theorem keeps_removeVictims {victims : List (String × IndexedEntry)}
    (hvictims : ∀ p ∈ victims, digests p.1) :
    Keeps (Framed dir J digests) (DiskCache.removeVictims victims) := by
  induction victims with
  | nil => exact .pure fun _ h => h
  | cons p victims ih =>
    exact .bind (F.keeps_removeFiles (hvictims p (List.mem_cons_self ..))) fun _ =>
      ih fun q hq => hvictims q (List.mem_cons_of_mem _ hq)

theorem keeps_get (key : String) : Keeps (Framed dir J digests) (DiskCache.get key) := by
  have hgone : Keeps (Framed dir J digests)
      (do DiskCache.removeDigest (keyDigest key); return none : DiskM (Option ByteArray)) :=
    .bind (F.keeps_removeDigest (F.digest (isDigest_keyDigest key))) fun _ => .pure fun _ h => h
  unfold DiskCache.get
  refine .bind (keeps_entryPath _ _) fun path => .assume fun _ =>
    .bind (keeps_readSidecar path) fun r => ?_
  split
  · exact .pure fun _ h => h
  · exact hgone
  · split
    · exact hgone
    split
    · exact .pure fun _ h => h
    refine .bind (keeps_entryPath _ _) fun path => .assume fun _ =>
      .bind (keeps_look (·.readFile path)) fun r => .assume fun _ => ?_
    split
    · exact .pure fun _ h => h
    · exact hgone
    · exact .throw fun _ h => h

/-! ## Scanning -/

theorem keeps_scanName {n name : String} {names : List String} (hlisted : Listed J dir n names)
    (hname : name ∈ names) :
    Ends (Framed dir J digests) (DiskCache.scanName (Path.join dir n) names name)
      (fun l s => (∀ p ∈ l, digests p.1) ∧ Framed dir J digests s)
      (fun _ => Framed dir J digests) := by
  have hsweep : Swept names name → Ends (Framed dir J digests)
      (do DiskCache.removeIfPresent (Path.join (Path.join dir n) name); return [] :
        DiskM (List (String × IndexedEntry)))
      (fun l s => (∀ p ∈ l, digests p.1) ∧ Framed dir J digests s)
      (fun _ => Framed dir J digests) := by
    intro hswept
    refine .bind (keeps_removeIfPresent fun v r i hv hfind hi => ?_) fun _ =>
      .pure fun _ h => ⟨fun p hp => (by cases hp), h⟩
    exact F.sweep hv hlisted hname hswept hfind hi
  unfold DiskCache.scanName
  split
  · next hunfinished => exact hsweep (.inl hunfinished)
  next hfinished =>
  have hfinished : withoutEnding? unfinishedEnding name = none := by simpa using hfinished
  split
  · next d hsidecar =>
    have hd : digests d :=
      F.sidecar hlisted (withoutEnding?_eq_some_iff.1 hsidecar ▸ hname)
    have hgone : Ends (Framed dir J digests)
        (do DiskCache.removeFiles d; return [] : DiskM (List (String × IndexedEntry)))
        (fun l s => (∀ p ∈ l, digests p.1) ∧ Framed dir J digests s)
        (fun _ => Framed dir J digests) :=
      .bind (F.keeps_removeFiles hd) fun _ => .pure fun _ h => ⟨fun p hp => (by cases hp), h⟩
    refine .bind (keeps_readSidecar _) fun r => ?_
    split
    · exact .pure fun _ h => ⟨fun p hp => (by cases hp), h⟩
    · split
      · refine .pure fun _ h => ⟨fun p hp => ?_, h⟩
        rw [List.mem_singleton.1 hp]
        exact hd
      · exact hgone
    · exact hgone
  · next hsidecar =>
    split
    · next d hvalue =>
      split
      · exact .pure fun _ h => ⟨fun p hp => (by cases hp), h⟩
      · next halone =>
        exact hsweep (.inr ⟨hfinished, hsidecar, d, hvalue, by simpa using halone⟩)
    · exact .pure fun _ h => ⟨fun p hp => (by cases hp), h⟩

theorem keeps_scanNames {n : String} {names : List String} (hlisted : Listed J dir n names)
    {some : List String} (hsome : ∀ name ∈ some, name ∈ names) :
    Ends (Framed dir J digests) (DiskCache.scanNames (Path.join dir n) names some)
      (fun l s => (∀ p ∈ l, digests p.1) ∧ Framed dir J digests s)
      (fun _ => Framed dir J digests) := by
  induction some with
  | nil => exact .pure fun _ h => ⟨fun p hp => (by cases hp), h⟩
  | cons name some ih =>
    refine .bind (F.keeps_scanName hlisted (hsome name (List.mem_cons_self ..))) fun here =>
      .assume fun hhere => .bind (ih fun m hm => hsome m (List.mem_cons_of_mem _ hm)) fun rest =>
        .assume fun hrest => .pure fun _ h => ⟨fun p hp => ?_, h⟩
    exact (List.mem_append.1 hp).elim (hhere p) (hrest p)

theorem keeps_scanShard {n : String} (hn : ∃ u all, J u ∧ u.readDir dir = .ok all ∧ n ∈ all) :
    Ends (Framed dir J digests) (DiskCache.scanShard (Path.join dir n))
      (fun l s => (∀ p ∈ l, digests p.1) ∧ Framed dir J digests s)
      (fun _ => Framed dir J digests) := by
  unfold DiskCache.scanShard
  refine .bind (keeps_lookFile _ _) fun kind => .assume fun _ => ?_
  split
  · refine .bind (keeps_lookFile (·.readDir _) _) fun names => .assume fun hnames => ?_
    exact F.keeps_scanNames ⟨hn, hnames⟩ fun _ h => h
  · exact .pure fun _ h => ⟨fun p hp => (by cases hp), h⟩

theorem keeps_scanShards {names : List String}
    (hnames : ∀ n ∈ names, ∃ u all, J u ∧ u.readDir dir = .ok all ∧ n ∈ all) :
    Ends (Framed dir J digests) (DiskCache.scanShards dir names)
      (fun l s => (∀ p ∈ l, digests p.1) ∧ Framed dir J digests s)
      (fun _ => Framed dir J digests) := by
  induction names with
  | nil => exact .pure fun _ h => ⟨fun p hp => (by cases hp), h⟩
  | cons n names ih =>
    refine .bind (F.keeps_scanShard (hnames n (List.mem_cons_self ..))) fun here =>
      .assume fun hhere => .bind (ih fun m hm => hnames m (List.mem_cons_of_mem _ hm)) fun rest =>
        .assume fun hrest => .pure fun _ h => ⟨fun p hp => ?_, h⟩
    exact (List.mem_append.1 hp).elim (hhere p) (hrest p)

theorem keeps_scan :
    Ends (Framed dir J digests) DiskCache.scan
      (fun l s => (∀ p ∈ l, digests p.1) ∧ Framed dir J digests s)
      (fun _ => Framed dir J digests) := by
  refine .get_bind_kept fun s hs => ?_
  rw [hs.directory]
  refine .bind (keeps_look (·.readDir dir)) fun r => .assume fun hr => ?_
  split
  · next names =>
    obtain ⟨u, hu, hnames⟩ := hr names rfl
    exact F.keeps_scanShards fun n hn => ⟨u, names, hu, hnames, hn⟩
  · exact .pure fun _ h => ⟨fun p hp => (by cases hp), h⟩
  · exact .throw fun _ h => h

theorem keeps_ensureIndex :
    Ends (Framed dir J digests) DiskCache.ensureIndex
      (fun _ s => s.cache.seeded = true ∧ Framed dir J digests s)
      (fun _ => Framed dir J digests) := by
  refine .get_bind fun s hs => ?_
  split
  · refine .bind (F.keeps_scan.imp_state fun t ht => ht ▸ hs) fun l => .assume fun hl => ?_
    split
    · exact .throw fun _ h => h
    · next index hindex =>
      exact .modify fun s h => ⟨rfl, h.directory, h.volume, fun _ p hp =>
        hl p (DiskIndex.mem_of_ofList? hindex hp)⟩
  · next hseeded =>
    refine .pure fun t ht => ?_
    subst ht
    exact ⟨by simpa using hseeded, hs⟩

/-! ## Storing -/

theorem keeps_writeWhole {d e : String} (hd : IsDigest d)
    (he : e = valueEnding ∨ e = sidecarEnding) (content : ByteArray) :
    Keeps (Framed dir J digests) (DiskCache.writeWhole (filePath dir d e) content) := by
  have hput : ∀ v w content, J v →
      v.writeFile (filePath dir d e ++ unfinishedEnding) content = .ok w → J w := by
    intro v w content hv hw
    obtain ⟨r, i, hresolve, hi, rfl, -⟩ := Volume.exists_put_of_writeFile hw
    exact F.write hv hd he hresolve hi
  refine .bind (keeps_change (R := fun v => ∀ q, v.find false
      (filePath dir d e ++ unfinishedEnding) ≠ .ok (q, .directory))
    (fun v w hv hw => ⟨hput v w content hv hw, ?_⟩) ?_ fun _ hv => hv) fun _ => ?_
  · exact fun q => Volume.find_of_writeFile hw
  · intro n v hv
    rcases hwrite : v.writeFile (filePath dir d e ++ unfinishedEnding) (content.extract 0 n)
      with o | w
    · exact hv
    · exact hput v w _ hv hwrite
  refine .file fun s h => ?_
  rcases FileM.writing_cases
      (·.rename (filePath dir d e ++ unfinishedEnding) (filePath dir d e)) (fun _ v => v) s.drive with
    ⟨w, hw, hanswer, hv⟩ | ⟨o, hanswer, hv | ⟨n, hv⟩⟩
  · have hJ : J w := by
      rcases Volume.exists_move_of_rename hw h.1 with
        rfl | ⟨p, i, r, j, hfind, hi, hresolve, hj, hne, rfl⟩
      · exact h.2.volume
      · exact F.move h.2.volume hd he hfind hi hresolve hj hne
    rw [FileM.rename, hanswer]
    exact framed_drive h.2 (hv ▸ hJ)
  · rw [FileM.rename, hanswer]
    exact framed_drive h.2 (hv ▸ h.2.volume)
  · rw [FileM.rename, hanswer]
    exact framed_drive h.2 (hv ▸ h.2.volume)

theorem keeps_writeEntry {d : String} (hd : IsDigest d) (content : ByteArray) (m : Sidecar) :
    Keeps (Framed dir J digests) (DiskCache.writeEntry d content m) := by
  have hpath : ∀ e, ∀ path, (∃ shard, shard? d = some shard ∧
      path = Path.join (Path.join dir shard) (d ++ e)) → path = filePath dir d e := by
    rintro e path ⟨shard, hshard, rfl⟩
    rw [hd.shard?_eq] at hshard
    cases hshard
    rfl
  refine .get_bind_kept fun s hs => ?_
  rw [hs.directory, hd.shard?_eq, Option.getD_some]
  refine .bind (keeps_change (R := fun _ => True) (fun v w hv hw => ⟨F.make hv hd hw, trivial⟩)
    (fun _ _ hv => hv) fun _ hv => F.left hv hd) fun _ => .assume fun _ => ?_
  refine .bind (keeps_entryPath d valueEnding) fun path => .assume fun hvalue =>
    .bind (?_ : Keeps _ _) fun _ => .bind (keeps_entryPath d sidecarEnding) fun path =>
      .assume fun hsidecar => ?_
  · rw [hpath _ _ hvalue]
    exact F.keeps_writeWhole hd (.inl rfl) content
  · rw [hpath _ _ hsidecar]
    exact F.keeps_writeWhole hd (.inr rfl) m.encode

theorem keeps_set (now : UInt64) (key : String) (content : ByteArray) :
    Keeps (Framed dir J digests) (DiskCache.set now key content) := by
  have hd := isDigest_keyDigest key
  refine .get_bind_kept fun s _ => ?_
  split
  · exact .pure fun _ h => h
  refine .bind F.keeps_ensureIndex fun _ => .get_bind_kept fun s ⟨hseeded, hs⟩ =>
    .imp_state ?_ fun _ h => h.2
  split
  · exact .bind (keeps_forget _) fun _ => .throw fun _ h => h
  · next victims index hreserve =>
    have hvictims : ∀ p ∈ victims, digests p.1 := fun p hp =>
      hs.index hseeded p ((DiskIndex.mem_of_reserve hreserve).1 hp)
    have hindex : ∀ p ∈ index.entries.entries, digests p.1 := by
      intro p hp
      rcases (DiskIndex.mem_of_reserve hreserve).2 hp with rfl | hp
      · exact F.digest hd
      · exact hs.index hseeded p hp
    refine .bind (keeps_modifyIndex fun _ _ => hindex) fun _ =>
      .bind (F.keeps_removeVictims hvictims) fun _ =>
        .bind (.handle (F.keeps_writeEntry hd content _) fun e => ?_) fun _ => .pure fun _ h => h
    exact .bind (keeps_forget _) fun _ => .throw fun _ h => h

/-! ## Calls -/

/-- Every call but clearing keeps what a frame says. -/
theorem keeps_perform {call : DiskCall} (hcall : call ≠ .clear) :
    Keeps (Framed dir J digests) call.perform := by
  have hreturn : ∀ {β : Type} {op : DiskM β} (f : β → DiskAnswer),
      Keeps (Framed dir J digests) op → Keeps (Framed dir J digests) (do return f (← op)) :=
    fun f hop => .bind hop fun _ => .pure fun _ h => h
  cases call with
  | set now key content => exact hreturn _ (F.keeps_set now key content)
  | setJson now key value => exact hreturn _ (F.keeps_set now key _)
  | get key => exact hreturn _ (F.keeps_get key)
  | remove key =>
    exact .bind (F.keeps_removeDigest (F.digest (isDigest_keyDigest key))) fun _ =>
      .pure fun _ h => h
  | clear => exact absurd rfl hcall
  | stats =>
    exact hreturn _ (.bind F.keeps_ensureIndex fun _ => .get_bind_kept fun _ _ =>
      .pure fun _ h => h.2)
  | reopen maxSize =>
    exact .bind (.modify fun s h => ⟨h.directory, h.volume, fun hseeded => nomatch hseeded⟩) fun _ =>
      .pure fun _ h => h

theorem keeps_runs {start s : DiskState}
    {calls : List (DiskCall × Except CacheError DiskAnswer)} (hstart : Framed dir J digests start)
    (hruns : DiskCache.Runs start calls s) (hcalls : ∀ c ∈ calls, c.1 ≠ .clear) :
    Framed dir J digests s := by
  induction hruns with
  | start => exact hstart
  | @call s s' calls call r faults _ hrun ih =>
    have hbefore := ih fun c hc => hcalls c (List.mem_append_left _ hc)
    have hcall := hcalls (call, r) (List.mem_append_right _ (List.mem_singleton_self _))
    have hfacing : Framed dir J digests (s.facing faults) :=
      ⟨hbefore.directory, hbefore.volume, hbefore.index⟩
    cases r with
    | ok answer => exact (F.keeps_perform hcall).of_ok hfacing hrun
    | error e => exact (F.keeps_perform hcall).of_error hfacing hrun

end Frame

end CodeGraph.Cache
