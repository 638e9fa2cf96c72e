import CodeGraph.Proofs.Configuration.Loading
import CodeGraph.Proofs.Configuration.Settings
import CodeGraph.Proofs.Toml.Definitions
import CodeGraph.Proofs.Volume.Written

/-!
# Layers of a configuration

A configuration is loaded from two files, the one of a workspace over the one for all workspaces, and
overrides go over both. Each setting is what overrides it, or what the inner file binds at its path,
or what the outer one does, or the default, and the settings of extensions are layered entry by entry
at every depth (`Configuration.Layers`, `ConfigurationLoader.load_layers`). A moment among the
settings of extensions comes as its text, since settings are read through the outline that also
serves texts: see `ConfigurationLoader.load_date_as_text`. Nothing but a value that does not match keeps
a table from being read (`ConfigurationLoader.interpret_eq_error`).
-/

namespace CodeGraph

open CodeGraph.Configuration (Overrides Setting settings)
open Toml (Step bound? IsWholeTable)

namespace ConfigurationLoader

variable {o : Overrides}

/-! ## What is described -/

theorem interpret_eq_ok {t : Toml.Table} {c : Configuration} (h : interpret t = .ok c) :
    Configuration.read .table (Toml.table t).outline = .ok c := by
  rw [interpret, Toml.decode] at h
  rcases hread : Configuration.read .table (Toml.table t).outline with f | c'
  · rw [hread] at h
    cases h
  · rw [hread] at h
    exact congrArg Except.ok (Except.ok.inj h)

/-- Nothing keeps a table from being read but a value that does not match, and the error is that of the
value. -/
theorem interpret_eq_error {t : Toml.Table} {e : ConfigurationError} (h : interpret t = .error e) :
    ∃ path m, e = .mismatch path m ∧
      Configuration.read .table (Toml.table t).outline = .error (.mismatch path m) := by
  rw [interpret, Toml.decode] at h
  rcases hread : Configuration.read .table (Toml.table t).outline with (b | ⟨path, m⟩) | c
  · exact absurd hread (Configuration.readsTables_read _ b)
  · rw [hread] at h
    cases h
    exact ⟨path, m, rfl, rfl⟩
  · rw [hread] at h
    cases h

theorem describe_eq_ok {t : Toml.Table} {c : Configuration} (h : describe t o = .ok c) :
    ∃ c₀, interpret t = .ok c₀ ∧ finish o c₀ = .ok c := by
  rw [describe] at h
  rcases hinterpret : interpret t with e | c₀
  · rw [hinterpret] at h
    cases h
  · rw [hinterpret] at h
    exact ⟨c₀, rfl, h⟩

theorem checkNames_eq_ok {seen l : List String} (h : Configuration.checkNames seen l = .ok ()) :
    (∀ n ∈ l, Text.trim n ≠ "" ∧ n ∉ seen) ∧ l.Nodup := by
  induction l generalizing seen with
  | nil => simp
  | cons n l ih =>
    rw [Configuration.checkNames] at h
    split at h
    · cases h
    next hblank =>
    split at h
    · cases h
    next hseen =>
    obtain ⟨hnames, hnodup⟩ := ih h
    refine ⟨List.forall_mem_cons.2 ⟨⟨hblank, by simpa using hseen⟩, ?_⟩,
      List.nodup_cons.2 ⟨fun hmem => (hnames n hmem).2 List.mem_cons_self, hnodup⟩⟩
    exact fun m hm => ⟨(hnames m hm).1, fun hmem => (hnames m hm).2 (List.mem_cons_of_mem _ hmem)⟩

/-- A setting that is overridden is what overrides it, and the others are as they were. -/
theorem get_override {S : Setting} (hS : S ∈ settings) (c : Configuration) (o : Overrides) :
    S.get (c.override o) = (S.override o).getD (S.get c) := by
  revert S
  simp only [settings, List.forall_mem_cons]
  exact ⟨rfl, rfl, rfl, rfl, rfl, rfl, rfl, rfl, rfl, rfl, rfl, List.forall_mem_nil _⟩

theorem finish_eq_ok {c c' : Configuration} (h : finish o c = .ok c') :
    c' = c.override o ∧ Configuration.checkNames [] c'.pipeline.extensionNames = .ok () ∧
      c'.caching.memory.maxItems ≠ 0 := by
  rw [finish] at h
  rcases hnames : Configuration.checkNames [] (c.override o).pipeline.extensionNames with e | ⟨⟨⟩⟩
  · rw [Configuration.validate, hnames] at h
    cases h
  · by_cases hitems : (c.override o).caching.memory.maxItems = 0
    · rw [Configuration.validate, hnames] at h
      simp only [hitems] at h
      cases h
    · rw [Configuration.validate, hnames] at h
      simp only [hitems] at h
      cases h
      exact ⟨rfl, hnames, hitems⟩

end ConfigurationLoader

/-! ## Layers -/

namespace Configuration

/-- What a setting is: what overrides it, or what is read of what is bound, or the default. -/
def Setting.IsGiven (S : Setting) (o : Overrides) (bound : Option Toml) (c : Configuration) :
    Prop :=
  match S.override o with
  | some x => S.get c = x
  | none => Toml.Given S.read (S.get {}) bound (S.get c)

/-- Steps by name. -/
def steps (names : List String) : List Step :=
  names.map fun n => ⟨n, none⟩

/-- A configuration that two tables describe, the inner one over the outer one, with overrides over
both. -/
structure Layers (o : Overrides) (above here : Option Toml.Table) (c : Configuration) : Prop where
  given : ∀ S ∈ settings, S.IsGiven o (bound? S.path (here.map .table) (above.map .table)) c
  extensions : ∀ name path, c.extensionTable.find? (steps (name :: path)) =
    (bound? (steps ("extensions" :: name :: path)) (here.map .table) (above.map .table)).map
      Toml.plain
  named : ∀ n ∈ c.pipeline.extensionNames, Text.trim n ≠ ""
  distinct : c.pipeline.extensionNames.Nodup
  roomy : 1 ≤ c.caching.memory.maxItems

open ConfigurationLoader

theorem exists_path_eq_cons {S : Setting} (hS : S ∈ settings) : ∃ s path, S.path = s :: path := by
  revert S
  simp [settings]

/-- What merged tables describe is what the two tables describe as layers. -/
theorem layers_of_describe {o : Overrides} {above here : Option Toml.Table} {c : Configuration}
    (habove : IsWholeTable (above.getD [])) (hhere : IsWholeTable (here.getD []))
    (h : describe (Toml.merge (Toml.merge [] (above.getD [])) (here.getD [])) o = .ok c) :
    Layers o above here c := by
  obtain ⟨c₀, hinterpret, hfinish⟩ := describe_eq_ok h
  rw [Toml.merge_nil habove.sorted] at hinterpret
  have hread := interpret_eq_ok hinterpret
  obtain ⟨rfl, hnames, hitems⟩ := finish_eq_ok hfinish
  have hbound : ∀ s path,
      (Toml.table (Toml.merge (above.getD []) (here.getD []))).find? (s :: path) =
        bound? (s :: path) (here.map .table) (above.map .table) := by
    intro s path
    rw [Toml.find?_merge hhere, Toml.bound?_getD]
  refine ⟨?_, ?_, ?_, ?_, ?_⟩
  · intro S hS
    have hgiven := isReadAt_of_mem S hS _ _ hread
    obtain ⟨s, path, hpath⟩ := exists_path_eq_cons hS
    rw [hpath, hbound, ← hpath] at hgiven
    rw [Setting.IsGiven, get_override hS]
    split
    · next x hx => rw [hx, Option.getD_some]
    · next hnone =>
      rw [hnone]
      exact hgiven
  · intro name path
    have hsection : ∀ w, (Toml.table (Toml.merge (above.getD []) (here.getD []))).find?
        [⟨"extensions", some 3⟩] = some w → w.IsWhole := by
      intro w hw
      rw [Toml.find?_cons, Option.bind_eq_some_iff] at hw
      obtain ⟨w', hlookup, hw'⟩ := hw
      cases hw'
      exact (habove.merge hhere).isWhole_of_lookup hlookup
    exact (find?_extensionTable hread hsection).trans (congrArg _ (hbound ⟨"extensions", none⟩ _))
  · exact fun n hn => ((checkNames_eq_ok hnames).1 n hn).1
  · exact (checkNames_eq_ok hnames).2
  · rw [UInt64.le_iff_toNat_le]
    exact Nat.one_le_iff_ne_zero.2 fun hzero => hitems (UInt64.toNat_inj.1 hzero)

end Configuration

namespace ConfigurationLoader

open CodeGraph.Configuration (Layers)

variable {l : ConfigurationLoader} {v : Volume} {workspace path : String} {o : Overrides}

/-! ## Files -/

theorem isWholeTable_of_tableOf {t : Toml.Table} (h : tableOf v path = .ok t) :
    IsWholeTable t := by
  rw [tableOf] at h
  split at h
  · cases h
  · split at h
    · next ht =>
      cases h
      exact Toml.isWholeTable_ofText? ht
    · cases h

theorem isWholeTable_of_tableIn {t : Option Toml.Table} (h : tableIn v path = .ok t) :
    IsWholeTable (t.getD []) := by
  rw [tableIn] at h
  split at h
  · rcases htable : tableOf v path with e | t'
    · rw [htable] at h
      cases h
    · rw [htable] at h
      cases h
      exact isWholeTable_of_tableOf htable
  · cases h
    exact Toml.isWholeTable_nil

theorem isWholeTable_of_tableAbove {t : Option Toml.Table} (h : l.tableAbove v = .ok t) :
    IsWholeTable (t.getD []) := by
  rw [tableAbove] at h
  split at h
  · cases h
    exact Toml.isWholeTable_nil
  · exact isWholeTable_of_tableIn h

/-- One file alone describes what it describes as the inner layer or the outer one. -/
theorem loadOf_alone (hthere : (v.metadata path).isOk = true) (o : Overrides) :
    loadOf (.ok none) (tableIn v path) o = (tableOf v path >>= fun t => describe t o) ∧
      loadOf (tableIn v path) (.ok none) o = (tableOf v path >>= fun t => describe t o) := by
  rw [tableIn, if_pos hthere]
  rcases htable : tableOf v path with e | t
  · exact ⟨rfl, rfl⟩
  · have hnil := Toml.merge_nil (isWholeTable_of_tableOf htable).sorted
    exact ⟨congrArg (describe · o) hnil, congrArg (describe · o) hnil⟩

/-! ## A fresh loader -/

/-- **Loading takes the two files as layers.** A loader that has not read the file for all workspaces
fails, or gives the configuration that the files describe as layers. With one file missing it gives
what the other file alone describes. What is asked of the loader later, while the file for all
workspaces is read as it was, is answered as if nothing had been loaded. -/
theorem load_layers (l : ConfigurationLoader) (hl : l.table = none) (v : Volume)
    (workspace : String) (o : Overrides) :
    let r := (load workspace o).run.run ⟨l, ⟨v, []⟩⟩
    (∀ c, r.1 = .ok c → ∃ above here, l.tableAbove v = .ok above ∧
      tableIn v (localPath workspace) = .ok here ∧ Layers o above here c) ∧
    (l.tableAbove v = .ok none → (v.metadata (localPath workspace)).isOk = true →
      r.1 = ((loadFile (localPath workspace) o).run.run ⟨l, ⟨v, []⟩⟩).1) ∧
    (∀ path, l.globalPath? = some path → (v.metadata path).isOk = true →
      tableIn v (localPath workspace) = .ok none →
        r.1 = ((loadFile path o).run.run ⟨l, ⟨v, []⟩⟩).1) ∧
    ∀ later : List (Volume × Request), (∀ x ∈ later, l.tableAbove x.1 = l.tableAbove v) →
      answers r.2.loader later = answers l later := by
  have hknown : l.known v = l.tableAbove v := by rw [known, hl]
  simp only [run_load, run_loadFile, hknown]
  refine ⟨?_, ?_, ?_, ?_⟩
  · intro c hc
    rcases habove : l.tableAbove v with e | above
    · rw [habove] at hc
      cases hc
    rcases hhere : tableIn v (localPath workspace) with e | here
    · rw [habove, hhere] at hc
      cases hc
    · rw [habove, hhere] at hc
      exact ⟨above, here, rfl, rfl, Configuration.layers_of_describe
        (isWholeTable_of_tableAbove habove) (isWholeTable_of_tableIn hhere) hc⟩
  · intro hnone hthere
    rw [hnone]
    exact (loadOf_alone hthere o).1
  · intro path hpath hthere hnone
    rw [hnone, tableAbove, hpath]
    exact (loadOf_alone hthere o).2
  · intro later hlater
    have hunder : ∀ w, tableUnder l.directory w = l.tableAbove w := fun _ => rfl
    have hfresh : l.Knows l.directory (l.tableAbove v) := ⟨rfl, .inl hl⟩
    have hlooked : (l.looked v).Knows l.directory (l.tableAbove v) :=
      hfresh.next (hunder v) (.loadGlobal)
    exact hlooked.answers_eq hfresh hlater

/-! ## A date -/

/-- The text of a file for all workspaces. -/
def sharedText : String := "[pipeline]\nconcurrent_parse = true\n"

/-- The text of a file of a workspace, with a date. -/
def datedText : String := "[extensions.x]\nwhen = 2020-01-01\n"

def day : Moment := { date := some ⟨2020, 1, 1⟩ }

def sharedTable : Toml.Table :=
  [("pipeline", .table [("concurrent_parse", .bool true)])]

def datedTable : Toml.Table :=
  [("extensions", .table [("x", .table [("when", .moment day)])])]

/-- The two files. -/
def datedVolume : Volume :=
  ⟨[(["home"], .directory), (["home", "config.toml"], .file sharedText.toUTF8),
    (["ws"], .directory), (["ws", ".codeloom"], .directory),
    (["ws", ".codeloom", "config.toml"], .file datedText.toUTF8)], []⟩

/-- A loader that has not read its file. -/
def datedLoader : ConfigurationLoader := { directory := some "home" }

section

open CodeGraph.Toml CodeGraph.Toml.Definition

theorem ofText?_shared : ofText? sharedText = some sharedTable := by
  have hchars : sharedText.toList = _ := String.toList_ofList
  have hscan : scanAll (sharedText.toList.length + 1) {} sharedText.toList =
      some ⟨[], ["pipeline"], false, [("concurrent_parse", .value (.bool true))]⟩ := by
    rw [hchars]
    with_unfolding_all rfl
  have hmark : withoutMark sharedText.toList = sharedText.toList := rfl
  rw [ofText?]
  simp only [hmark, hscan]
  simp [Definitions.toTable, Definitions.finish, Definitions.splitHeader?, descend, entryValues,
    toToml?, asValue, momentName, NameMap.ofList, NameMap.insertMany, NameMap.insert,
    NameMap.place, NameMap.empty, sharedTable]

theorem ofText?_dated : ofText? datedText = some datedTable := by
  have hchars : datedText.toList = _ := String.toList_ofList
  have hscan : scanAll (datedText.toList.length + 1) {} datedText.toList =
      some ⟨[("extensions", .table .passed [])], ["extensions", "x"], false,
        [("when", .value (.moment day))]⟩ := by
    rw [hchars]
    with_unfolding_all rfl
  have hmark : withoutMark datedText.toList = datedText.toList := rfl
  rw [ofText?]
  simp only [hmark, hscan]
  simp [Definitions.toTable, Definitions.finish, Definitions.splitHeader?, descend, replace,
    entryValues, toToml?, asValue, momentName, NameMap.ofList, NameMap.insertMany, NameMap.insert,
    NameMap.place, NameMap.empty, datedTable]

end

/-- A file of text in a directory is read as its table. -/
theorem tableIn_join {p n s : String} {q : List String} {t : Toml.Table} (h : v.LeadsTo p q)
    (hn : Path.IsPlain n) (hlen : (Path.join p n).utf8ByteSize ≤ Volume.longestPath)
    (hi : v.item? (q ++ [n]) = some (.file s.toUTF8)) (ht : Toml.ofText? s = some t) :
    tableIn v (Path.join p n) = .ok (some t) := by
  have hmetadata : v.metadata (Path.join p n) = .ok (.file s.toUTF8) := by
    rw [Volume.metadata, h.find_join hn hlen hi (by simp)]
    rfl
  have htext : v.readText (Path.join p n) = .ok s :=
    Volume.readText_of_readFile (h.readFile_join hn hlen hi)
  rw [tableIn, hmetadata, tableOf, htext]
  simp only [ht]
  rfl

theorem tableAbove_dated : datedLoader.tableAbove datedVolume = .ok (some sharedTable) := by
  have hhome : datedVolume.LeadsTo "home" ["home"] :=
    Volume.leadsTo_name rfl (by decide) rfl
  exact tableIn_join hhome (by decide) (by decide) rfl
    ofText?_shared

theorem tableIn_dated : tableIn datedVolume (localPath "ws") = .ok (some datedTable) := by
  have hws : datedVolume.LeadsTo "ws" ["ws"] :=
    Volume.leadsTo_name rfl (by decide) rfl
  have hdirectory : datedVolume.LeadsTo (Path.join "ws" directoryName) ["ws", ".codeloom"] :=
    hws.join (by decide) (by decide) rfl
  exact tableIn_join hdirectory (by decide) (by decide) rfl
    ofText?_dated

theorem run_load_dated : ∃ c s,
    (load "ws" {}).run.run ⟨datedLoader, ⟨datedVolume, []⟩⟩ = (.ok c, s) ∧
    c.pipeline.concurrent = true ∧
    c.extensionTable.find? (Configuration.steps ["x", "when"]) = some (.string "2020-01-01") := by
  have habove : datedLoader.known datedVolume = .ok (some sharedTable) := tableAbove_dated
  rw [run_load, habove, tableIn_dated]
  exact ⟨_, _, rfl, rfl, rfl⟩

/-- The two files as layers. -/
theorem load_layers_dated : ∃ c s,
    (load "ws" {}).run.run ⟨datedLoader, ⟨datedVolume, []⟩⟩ = (.ok c, s) ∧
      ∃ above here, datedLoader.tableAbove datedVolume = .ok above ∧
        tableIn datedVolume (localPath "ws") = .ok here ∧ Layers {} above here c := by
  obtain ⟨c, s, hrun, -, -⟩ := run_load_dated
  refine ⟨c, s, hrun, (load_layers datedLoader rfl datedVolume "ws" {}).1 c ?_⟩
  rw [hrun]

/-- A date in the settings of an extension does not stay one. -/
theorem load_date_as_text : ∃ c s,
    (load "ws" {}).run.run ⟨datedLoader, ⟨datedVolume, []⟩⟩ = (.ok c, s) ∧
      tableIn datedVolume (localPath "ws") = .ok (some datedTable) ∧
      (Toml.table datedTable).find? (Configuration.steps ["extensions", "x", "when"]) =
        some (.moment day) ∧
      c.extensionTable.find? (Configuration.steps ["x", "when"]) ≠ some (.moment day) := by
  obtain ⟨c, s, hrun, -, hfind⟩ := run_load_dated
  refine ⟨c, s, hrun, tableIn_dated, rfl, ?_⟩
  rw [hfind]
  intro h
  cases h

end ConfigurationLoader

end CodeGraph
