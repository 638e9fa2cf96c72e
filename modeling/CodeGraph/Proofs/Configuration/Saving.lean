import CodeGraph.Proofs.Configuration.Layers
import CodeGraph.Proofs.Configuration.Rereading
import CodeGraph.Proofs.Volume.Written

/-!
# Saving a configuration

Saving makes the directory of a file, if it is missing, and then writes the file (`save_eq`). A
configuration that cannot be written is found out before the file is touched
(`within_of_text_error`). What is saved is what is loaded next, unless the loader still answers with
the table that it has read of the file for all workspaces (`load_after_save`).
-/

namespace CodeGraph.ConfigurationLoader

open Toml (orderedTable)

variable {c : Configuration} {s s' : LoaderState} {path workspace text : String}

/-! ## The steps of saving -/

/-- Makes the directory of a file, if it is missing. -/
def makeParent (path : String) : LoaderM Unit := do
  if let some parent := Path.parent? path then
    if !(← isThere parent) then
      if let .error e ← files (FileM.makeDirs parent) then
        throw (.noDirectory parent e)

/-- Writes a configuration to a file in a directory that is there. -/
def write (path : String) (c : Configuration) : LoaderM Unit := do
  let text ← c.text
  if let .error e ← files (FileM.writeFile path text.toUTF8) then
    throw (.unwritable path e)

theorem save_eq (path : String) (c : Configuration) :
    save path c = makeParent path >>= fun _ => write path c := by
  unfold save makeParent write
  rcases Path.parent? path with _ | parent
  · rfl
  · simp only [bind_assoc]
    refine congrArg (isThere parent >>= ·) (funext fun there => ?_)
    cases there with
    | true => rfl
    | false =>
      simp only [Bool.not_false, if_true, bind_assoc]
      refine congrArg (files (FileM.makeDirs parent) >>= ·) (funext fun made => ?_)
      cases made <;> rfl

theorem run_files_any {α : Type} (op : FileM α) (s : LoaderState) :
    (files op).run.run s = (.ok (op.run s.drive).1, ⟨s.loader, (op.run s.drive).2⟩) := rfl

theorem run_isThere_any (path : String) (s : LoaderState) : ∃ b drive,
    (isThere path).run.run s = (.ok b, ⟨s.loader, drive⟩) ∧ drive.volume = s.drive.volume := by
  let looking : FileM (Except OsError Item) := FileM.reading (·.metadata path)
  have hvolume : (looking.run s.drive).2.volume = s.drive.volume := FileM.reading_volume
  exact ⟨_, _, rfl, hvolume⟩

/-- Whether or not directories can be made, nothing else is. -/
theorem made_of_makeDirs (p : String) (d : Drive) :
    let v := ((FileM.makeDirs p).run d).2.volume
    d.volume.Within v ∧ (d.volume.IsTree → v.IsTree) := by
  rcases FileM.writing_outcome (·.makeDirs p) (fun _ v => v) (·.dirsLeft p) d with
    ⟨v, hmake, -, hv⟩ | ⟨-, -, hv | ⟨_, hv⟩ | ⟨-, hv⟩⟩
  · rw [FileM.makeDirs, hv]
    exact ⟨Volume.within_makeDirs hmake, fun htree => htree.makeDirs hmake⟩
  · rw [FileM.makeDirs, hv]
    exact ⟨.refl _, id⟩
  · rw [FileM.makeDirs, hv]
    exact ⟨.refl _, id⟩
  · rw [FileM.makeDirs, hv]
    exact ⟨Volume.within_dirsLeft _ _, fun htree => htree.dirsLeft p⟩

/-- Nothing but directories is made for a file that is to be written. -/
theorem run_makeParent (path : String) (s : LoaderState) : ∃ r drive,
    (makeParent path).run.run s = (r, ⟨s.loader, drive⟩) ∧
      s.drive.volume.Within drive.volume ∧ (s.drive.volume.IsTree → drive.volume.IsTree) := by
  unfold makeParent
  rcases Path.parent? path with _ | parent
  · exact ⟨.ok (), s.drive, rfl, .refl _, id⟩
  obtain ⟨there, drive, hrun, hvolume⟩ := run_isThere_any parent s
  simp only
  rw [run_bind_ok hrun, ← hvolume]
  cases there with
  | true => exact ⟨.ok (), drive, rfl, .refl _, id⟩
  | false =>
    obtain ⟨hwithin, htree⟩ := made_of_makeDirs parent drive
    simp only [Bool.not_false, if_true]
    rw [run_bind_ok (run_files_any ..)]
    rcases ((FileM.makeDirs parent).run drive).1 with e | ⟨⟨⟩⟩
    · exact ⟨.error (.noDirectory parent e), _, rfl, hwithin, htree⟩
    · exact ⟨.ok (), _, rfl, hwithin, htree⟩

theorem exists_of_text_eq_ok (h : c.text = .ok text) : ∃ t, c.toTable? = some t ∧
    Toml.entriesWritable t = true ∧ text = Toml.print t := by
  unfold Configuration.text at h
  split at h
  · next t ht =>
    split at h
    · next hwritable =>
      cases h
      exact ⟨t, ht, hwritable, rfl⟩
    · cases h
  · cases h

/-- What is written is the text of the configuration. -/
theorem exists_of_write (h : (write path c).run.run s = (.ok (), s')) : ∃ text,
    c.text = .ok text ∧ s.drive.volume.writeFile path text.toUTF8 = .ok s'.drive.volume ∧
      s'.loader = s.loader := by
  unfold write at h
  obtain ⟨text, s₁, hlift, h⟩ := exists_of_run_bind h
  obtain ⟨htext, rfl⟩ := Prod.mk.inj ((run_lift c.text s).symm.trans hlift)
  refine ⟨text, htext, ?_⟩
  rw [run_bind_ok (run_files_any ..)] at h
  rcases FileM.writing_cases (·.writeFile path text.toUTF8)
      (fun n v => (v.writeFile path (text.toUTF8.extract 0 n)).toOption.getD v) s.drive with
    ⟨v, hwrite, hok, hv⟩ | ⟨e, herror, -⟩
  · rw [FileM.writeFile, hok] at h
    cases h
    exact ⟨by rw [hv]; exact hwrite, rfl⟩
  · rw [FileM.writeFile, herror] at h
    cases h

/-- Saving writes the text of the configuration, after it has made directories. -/
theorem exists_of_save (htree : s.drive.volume.IsTree)
    (h : (save path c).run.run s = (.ok (), s')) : ∃ t, ∃ v : Volume, c.toTable? = some t ∧
      Toml.entriesWritable t = true ∧ v.IsTree ∧
      v.writeFile path (Toml.print t).toUTF8 = .ok s'.drive.volume ∧ s'.loader = s.loader := by
  rw [save_eq] at h
  obtain ⟨r, drive, hparent, -, htree'⟩ := run_makeParent path s
  obtain ⟨⟨⟩, s₁, hparent', h⟩ := exists_of_run_bind h
  rw [hparent] at hparent'
  obtain ⟨-, rfl⟩ := Prod.mk.inj hparent'
  obtain ⟨text, htext, hwrite, hloader⟩ := exists_of_write h
  obtain ⟨t, ht, hwritable, rfl⟩ := exists_of_text_eq_ok htext
  exact ⟨t, drive.volume, ht, hwritable, htree' htree, hwrite, hloader⟩

/-- A configuration that has no text is not written: no file is changed. -/
theorem within_of_text_error {e : ConfigurationError} (h : c.text = .error e) (path : String)
    (s : LoaderState) :
    s.drive.volume.Within ((save path c).run.run s).2.drive.volume := by
  obtain ⟨r, drive, hparent, hwithin, -⟩ := run_makeParent path s
  rw [save_eq]
  rcases r with e' | ⟨⟨⟩⟩
  · rw [run_bind_error hparent]
    exact hwithin
  · have hwrite : (write path c).run.run ⟨s.loader, drive⟩ = (.error e, ⟨s.loader, drive⟩) := by
      rw [write, h]
      rfl
    rw [run_bind_ok hparent, hwrite]
    exact hwithin

/-! ## Loading afterwards -/

/-- What is read is known. -/
theorem known_looked (l : ConfigurationLoader) (v : Volume) : (l.looked v).known v = l.known v := by
  obtain ⟨directory, _ | t⟩ := l
  · have habove : ∀ table, tableAbove ⟨directory, table⟩ v = tableAbove ⟨directory, none⟩ v :=
      fun _ => rfl
    rw [looked, known, habove]
    simp only [known]
    rcases tableAbove ⟨directory, none⟩ v with e | ⟨_ | t⟩ <;> rfl
  · rfl

/-- What a loader answers to requests in turn, while the files stay as they are. -/
def replies (l : ConfigurationLoader) (v : Volume) (later : List Request) :
    List (Request × Except ConfigurationError (Option Configuration)) :=
  later.zip (answers l (later.map (v, ·)))

theorem eq_respond_of_mem_replies {l : ConfigurationLoader} {v : Volume} {later : List Request}
    {q : Request} {a : Except ConfigurationError (Option Configuration)}
    (h : (q, a) ∈ l.replies v later) : a = respond (l.known v) v q := by
  induction later generalizing l with
  | nil => cases h
  | cons q' later ih =>
    rw [replies, List.map_cons, answers, List.zip_cons_cons, run_perform] at h
    rcases List.mem_cons.1 h with heq | h
    · cases heq
      rfl
    · have hknown : (l.next v q').known v = l.known v := by
        cases q' with
        | loadLocal => rfl
        | _ => exact known_looked l v
      rw [← hknown]
      exact ih h

/-- A file that was saved describes what was saved. -/
theorem single_tableIn_of_save (htree : s.drive.volume.IsTree) (hc : c.IsOrdinary)
    (hreads : c.IsReadBack) (h : (save path c).run.run s = (.ok (), s')) :
    single (tableIn s'.drive.volume path) = .ok (some c.plain) ∧ s'.loader = s.loader := by
  obtain ⟨t, v, ht, hwritable, hv, hwrite, hloader⟩ := exists_of_save htree h
  obtain ⟨hthere, htext⟩ := Volume.readText_of_writeFile hv hwrite
  have htable : tableIn s'.drive.volume path = .ok (some (orderedTable t)) := by
    rw [tableIn, if_pos hthere, tableOf, htext]
    simp only [hreads t ht hwritable]
    rfl
  refine ⟨?_, hloader⟩
  rw [htable, single, Configuration.interpret_orderedTable hc ht]
  rfl

theorem exists_of_saveGlobal (h : (saveGlobal c).run.run s = (.ok (), s')) : ∃ path,
    s.loader.globalPath? = some path ∧ (save path c).run.run s = (.ok (), s') := by
  rw [saveGlobal, run_bind_ok (run_get s)] at h
  split at h
  · next path hpath => exact ⟨path, hpath, h⟩
  · cases h

/-- **What is saved is loaded.** After the file for all workspaces has been saved, a loader that has
not read it, or has forgotten what it read, gives what was saved; one that has read it answers as
before. The file of a workspace is not remembered: what was saved is always what is loaded. What
cannot be written is found out before any file is changed. -/
theorem load_after_save (htree : s.drive.volume.IsTree) (hc : c.IsOrdinary) (hreads : c.IsReadBack) :
    (∀ s', (saveGlobal c).run.run s = (.ok (), s') → ∀ later a,
      ((.loadGlobal, a) ∈ s'.loader.forget.replies s'.drive.volume later →
        a = .ok (some c.plain)) ∧
      ((.loadGlobal, a) ∈ s'.loader.replies s'.drive.volume later →
        a = match s.loader.table with
          | none => .ok (some c.plain)
          | some t => (interpret t).map some)) ∧
    (∀ workspace s', (saveLocal workspace c).run.run s = (.ok (), s') → ∀ later a,
      (.loadLocal workspace, a) ∈ s'.loader.replies s'.drive.volume later →
        a = .ok (some c.plain)) ∧
    ∀ e, c.text = .error e → ∀ p content, s.drive.volume.readFile p = .ok content →
      ((saveGlobal c).run.run s).2.drive.volume.readFile p = .ok content ∧
      ∀ workspace, ((saveLocal workspace c).run.run s).2.drive.volume.readFile p = .ok content := by
  refine ⟨fun s' h later a => ?_, fun workspace s' h later a ha => ?_, ?_⟩
  · obtain ⟨path, hpath, hsave⟩ := exists_of_saveGlobal h
    obtain ⟨hsaved, hloader⟩ := single_tableIn_of_save htree hc hreads hsave
    have hunread : ∀ l : ConfigurationLoader, l.directory = s.loader.directory → l.table = none →
        single (l.known s'.drive.volume) = .ok (some c.plain) := by
      intro l hdirectory htable
      rw [known, htable, tableAbove, globalPath?, hdirectory, ← globalPath?, hpath]
      exact hsaved
    refine ⟨fun ha => ?_, fun ha => ?_⟩
    · rw [eq_respond_of_mem_replies ha]
      exact hunread _ (by rw [forget, hloader]) rfl
    · rw [eq_respond_of_mem_replies ha, respond, hloader]
      rcases htable : s.loader.table with _ | t
      · exact hunread _ rfl htable
      · rw [known, htable]
        rfl
  · rw [eq_respond_of_mem_replies ha]
    exact (single_tableIn_of_save htree hc hreads h).1
  · intro e he p content hp
    have hkept : ∀ path, ((save path c).run.run s).2.drive.volume.readFile p = .ok content :=
      fun path => Volume.readFile_within (within_of_text_error he path s) hp
    constructor
    · rw [saveGlobal, run_bind_ok (run_get s)]
      rcases s.loader.globalPath? with _ | path
      · exact hp
      · exact hkept path
    · intro workspace
      rw [saveLocal]
      exact hkept _

/-! ## A date and a default -/

/-- Saving into a directory that is there succeeds, unless something other than a file is in the
place. -/
theorem run_save_join {v : Volume} {p n : String} {q : List String} (l : ConfigurationLoader)
    (h : v.LeadsTo p q) (hn : Path.IsPlain n)
    (hlen : (Path.join p n).utf8ByteSize ≤ Volume.longestPath)
    (hparent : Path.parent? (Path.join p n) = some p)
    (hi : ∀ i, v.item? (q ++ [n]) = some i → ∃ old, i = .file old) (htext : c.text = .ok text) :
    (save (Path.join p n) c).run.run ⟨l, ⟨v, []⟩⟩ =
      (.ok (), ⟨l, ⟨v.put (q ++ [n]) (.file text.toUTF8), []⟩⟩) := by
  have hthere : (v.metadata p).isOk = true := by
    rw [Volume.metadata, Volume.find, h]
    rfl
  have hmade : (makeParent (Path.join p n)).run.run ⟨l, ⟨v, []⟩⟩ = (.ok (), ⟨l, ⟨v, []⟩⟩) := by
    unfold makeParent
    rw [hparent]
    simp only
    rw [run_bind_ok (run_isThere l v p), hthere]
    rfl
  rw [save_eq, run_bind_ok hmade, write, htext]
  refine (run_bind_ok (run_lift (.ok text) _)).trans ?_
  rw [run_bind_ok (run_files_any ..), FileM.writeFile, FileM.writing_faultless rfl,
    h.writeFile_join hn hlen hi]
  rfl

/-- A configuration with a date in the settings of an extension. -/
def datedConfiguration : Configuration :=
  { extensionSettings := .ofList [("x", [("when", .moment day)])] }

/-- The table that it is written as. -/
def savedTable : Toml.Table := [
  ("storage", .table [("loom_dir", .string ".codeloom")]),
  ("pipeline", .table [
    ("extensions", .array [.string "filesystem", .string "test-files"]),
    ("concurrent_parse", .bool false), ("id_strategy", .string "sequential")]),
  ("cache", .table [
    ("enable_file_cache", .bool true),
    ("memory", .table [("max_size_mb", .integer 64), ("max_items", .integer 10000),
      ("ttl_secs", .integer 3600)]),
    ("file", .table [("max_size_mb", .integer 512)])]),
  ("extensions", .table [("x", .table [("when", .moment day)])]),
  ("logging", .table [("level", .string "info")])]

def savedText : String := "[storage]
loom_dir = \".codeloom\"

[pipeline]
extensions = [
    \"filesystem\",
    \"test-files\",
]
concurrent_parse = false
id_strategy = \"sequential\"

[cache]
enable_file_cache = true

[cache.memory]
max_size_mb = 64
max_items = 10000
ttl_secs = 3600

[cache.file]
max_size_mb = 512

[extensions.x]
when = 2020-01-01

[logging]
level = \"info\"
"

section

open Toml Toml.Definition

/-- What the sections of the text define. -/
def savedDefinitions : Definitions := {
  finished := [
    ("storage", .table .headed [("loom_dir", .value (.string ".codeloom"))]),
    ("pipeline", .table .headed [
      ("extensions", .array [.value (.string "filesystem"), .value (.string "test-files")]),
      ("concurrent_parse", .value (.bool false)),
      ("id_strategy", .value (.string "sequential"))]),
    ("cache", .table .headed [
      ("enable_file_cache", .value (.bool true)),
      ("memory", .table .headed [("max_size_mb", .value (.integer 64)),
        ("max_items", .value (.integer 10000)), ("ttl_secs", .value (.integer 3600))]),
      ("file", .table .headed [("max_size_mb", .value (.integer 512))])]),
    ("extensions", .table .passed [("x", .table .headed [("when", .value (.moment day))])])]
  path := ["logging"]
  current := [("level", .value (.string "info"))] }

theorem print_saved : Toml.print savedTable = savedText := by decide +kernel

theorem toTable_saved : savedDefinitions.toTable = some (orderedTable savedTable) := by
  simp [Definitions.toTable, Definitions.finish, Definitions.splitHeader?, descend, entryValues,
    itemValues, toToml?, asValue, momentName, NameMap.ofList, NameMap.insertMany, NameMap.insert,
    NameMap.place, NameMap.empty, savedDefinitions, orderedTable, orderedEntries, ordered,
    orderedItems, savedTable]

set_option maxRecDepth 4000 in
theorem ofText?_saved : ofText? savedText = some (orderedTable savedTable) := by
  have hchars : savedText.toList = _ := String.toList_ofList
  have hmark : withoutMark savedText.toList = savedText.toList := by
    rw [hchars]
    rfl
  have hscan : scanAll (savedText.toList.length + 1) {} savedText.toList =
      some savedDefinitions := by
    rw [hchars]
    with_unfolding_all rfl
  rw [ofText?]
  simp only [hmark, hscan]
  exact toTable_saved

end

theorem toTable?_dated : datedConfiguration.toTable? = some savedTable := rfl

theorem text_dated : datedConfiguration.text = .ok (Toml.print savedTable) := rfl

theorem isReadBack_dated : datedConfiguration.IsReadBack := by
  intro t ht _
  obtain rfl : savedTable = t := Option.some.inj (toTable?_dated.symm.trans ht)
  rw [print_saved]
  exact ofText?_saved

theorem isOrdinary_dated : datedConfiguration.IsOrdinary := by
  intro e he
  obtain rfl : e = ("x", [("when", .moment day)]) := List.mem_singleton.1 he
  refine ⟨List.pairwise_singleton .., fun e he => ?_⟩
  obtain rfl := List.mem_singleton.1 he
  exact .moment day

theorem leadsTo_home : datedVolume.LeadsTo "home" ["home"] :=
  Volume.leadsTo_name rfl (by decide) rfl

theorem unlinked_datedVolume : datedVolume.Unlinked := by
  refine .of_entries rfl fun e he => ?_
  simp only [datedVolume, List.mem_cons, List.not_mem_nil, or_false] at he
  rcases he with rfl | rfl | rfl | rfl | rfl
  · exact ⟨[], "home", rfl, rfl, by decide, by simp⟩
  · exact ⟨["home"], "config.toml", rfl, rfl, by decide, by simp⟩
  · exact ⟨[], "ws", rfl, rfl, by decide, by simp⟩
  · exact ⟨["ws"], ".codeloom", rfl, rfl, by decide, by simp⟩
  · exact ⟨["ws", ".codeloom"], "config.toml", rfl, rfl, by decide, by simp⟩

/-- Saving for all workspaces succeeds, whether or not the loader has read the file. -/
theorem run_saveGlobal_home (table : Option Toml.Table) (htext : c.text = .ok text) :
    (saveGlobal c).run.run ⟨⟨some "home", table⟩, ⟨datedVolume, []⟩⟩ =
      (.ok (), ⟨⟨some "home", table⟩,
        ⟨datedVolume.put ["home", "config.toml"] (.file text.toUTF8), []⟩⟩) := by
  rw [saveGlobal, run_bind_ok (run_get _)]
  refine run_save_join _ leadsTo_home (by decide) (by decide) rfl ?_ htext
  intro i hi
  cases hi
  exact ⟨_, rfl⟩

/-- A date that is saved is loaded as its text. -/
theorem load_after_save_dated : datedVolume.IsTree ∧ datedConfiguration.IsOrdinary ∧
    datedConfiguration.IsReadBack ∧ ∃ s' a,
      (saveGlobal datedConfiguration).run.run ⟨datedLoader, ⟨datedVolume, []⟩⟩ = (.ok (), s') ∧
        (.loadGlobal, a) ∈ s'.loader.replies s'.drive.volume [.loadGlobal] ∧
        a = .ok (some datedConfiguration.plain) := by
  have hsave := run_saveGlobal_home none text_dated
  refine ⟨unlinked_datedVolume.toIsTree, isOrdinary_dated, isReadBack_dated, _, _, hsave,
    List.mem_singleton_self _, ?_⟩
  exact ((load_after_save unlinked_datedVolume.toIsTree isOrdinary_dated isReadBack_dated).1 _ hsave
    [.loadGlobal] _).2 (List.mem_singleton_self _)

/-- What the shared file describes. -/
def sharedConfiguration : Configuration := { pipeline := { concurrent := true } }

theorem run_loadGlobal (l : ConfigurationLoader) (v : Volume) :
    loadGlobal.run.run ⟨l, ⟨v, []⟩⟩ = (single (l.known v), ⟨l.looked v, ⟨v, []⟩⟩) :=
  run_perform l v .loadGlobal

/-- Settings of an extension with a table that begins as one that stands for a moment. -/
def markedConfiguration : Configuration :=
  { extensionSettings := .ofList [("x", [("y", .table [(Toml.momentName, .string "soon")])])] }

/-- The table that it is written as. -/
def markedTable : Toml.Table := markedConfiguration.toTable?.getD []

/-- What a loader has read is not what is saved afterwards, a date does not stay one, and a table
that begins as one that stands for a moment is not read at all. -/
theorem load_after_save_differs :
    (∃ s₁ s₂ c₁ c₂, loadGlobal.run.run ⟨datedLoader, ⟨datedVolume, []⟩⟩ = (.ok (some c₁), s₁) ∧
      (saveGlobal {}).run.run s₁ = (.ok (), s₂) ∧
      (loadGlobal.run.run s₂).1 = .ok (some c₂) ∧ c₂ ≠ {}) ∧
    (∃ s' c', (saveGlobal datedConfiguration).run.run ⟨datedLoader, ⟨datedVolume, []⟩⟩ =
        (.ok (), s') ∧ (loadGlobal.run.run s').1 = .ok (some c') ∧ c' ≠ datedConfiguration) ∧
    markedConfiguration.toTable? = some markedTable ∧ Toml.entriesWritable markedTable = true ∧
      ∀ c', interpret (orderedTable markedTable) ≠ .ok c' := by
  refine ⟨?_, ?_, ?_⟩
  · have hknown : datedLoader.known datedVolume = .ok (some sharedTable) := tableAbove_dated
    have hlooked : datedLoader.looked datedVolume = ⟨some "home", some sharedTable⟩ := by
      rw [looked, hknown]
      rfl
    have hload := run_loadGlobal datedLoader datedVolume
    rw [hknown, hlooked] at hload
    obtain ⟨text, htext⟩ : ∃ text, ({} : Configuration).text = .ok text := ⟨_, rfl⟩
    refine ⟨_, _, sharedConfiguration, sharedConfiguration, hload, run_saveGlobal_home _ htext,
      ?_, ?_⟩
    · rw [run_loadGlobal]
      rfl
    · intro heq
      cases congrArg (·.pipeline.concurrent) heq
  · have hsave := run_saveGlobal_home none text_dated
    obtain ⟨path, hpath, hwritten⟩ := exists_of_saveGlobal hsave
    cases hpath
    have hsaved := (single_tableIn_of_save unlinked_datedVolume.toIsTree isOrdinary_dated
      isReadBack_dated hwritten).1
    refine ⟨_, datedConfiguration.plain, hsave, ?_, ?_⟩
    · rw [run_loadGlobal]
      exact hsaved
    · intro heq
      have hentries := congrArg (·.extensionSettings.entries) heq
      simp [Configuration.plain, datedConfiguration, NameMap.map, NameMap.ofList,
        NameMap.insertMany, NameMap.insert, NameMap.place, NameMap.empty, Toml.plainEntries,
        Toml.plain] at hentries
  · refine ⟨rfl, rfl, ?_⟩
    have hrefused : (interpret (orderedTable markedTable)).isOk = false := by decide +kernel
    intro c' hc'
    rw [hc'] at hrefused
    cases hrefused

end CodeGraph.ConfigurationLoader
