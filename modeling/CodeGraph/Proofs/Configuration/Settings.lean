import CodeGraph.Configuration.Rules
import CodeGraph.Proofs.Toml.Records

/-!
# Settings

A configuration is made of settings. Each stands at a path of the table that describes the
configuration (`Configuration.settings`), and what is read there is what the setting is, the default
if nothing is (`isReadAt_of_mem`). The settings of extensions are a table of their own, which is read
as it is, but for moments, which come as texts (`find?_extensionTable`).
-/

namespace CodeGraph.Configuration

open Json (Decoded Outline Origin Record)
open Toml (Given ReadsTables Step)

/-- A setting: where it stands, how it is read, which part of a configuration it is, and what
overrides it. -/
structure Setting where
  Value : Type
  path : List Step
  read : Origin → Outline → Decoded Value
  get : Configuration → Value
  override : Overrides → Option Value := fun _ => none

/-- The settings besides those of extensions. -/
def settings : List Setting := [
  ⟨String, [⟨"storage", some 0⟩, ⟨"loom_dir", some 0⟩], Json.readPath, (·.storage.directory),
    (·.directory)⟩,
  ⟨List String, [⟨"pipeline", some 1⟩, ⟨"extensions", some 0⟩], Json.readList Json.readString,
    (·.pipeline.extensionNames), (·.extensionNames)⟩,
  ⟨Bool, [⟨"pipeline", some 1⟩, ⟨"concurrent_parse", some 1⟩], Json.readBool,
    (·.pipeline.concurrent), (·.concurrent)⟩,
  ⟨IdStrategy, [⟨"pipeline", some 1⟩, ⟨"id_strategy", some 2⟩], IdStrategy.read,
    (·.pipeline.strategy), fun _ => none⟩,
  ⟨Bool, [⟨"cache", some 2⟩, ⟨"enable_file_cache", some 0⟩], Json.readBool, (·.caching.useDisk),
    (·.useDisk)⟩,
  ⟨UInt64, [⟨"cache", some 2⟩, ⟨"memory", some 1⟩, ⟨"max_size_mb", some 0⟩], Json.readWord,
    (·.caching.memory.megabytes), fun _ => none⟩,
  ⟨UInt64, [⟨"cache", some 2⟩, ⟨"memory", some 1⟩, ⟨"max_items", some 1⟩], Json.readSize,
    (·.caching.memory.maxItems), fun _ => none⟩,
  ⟨UInt64, [⟨"cache", some 2⟩, ⟨"memory", some 1⟩, ⟨"ttl_secs", some 2⟩], Json.readWord,
    (·.caching.memory.ttlSeconds), fun _ => none⟩,
  ⟨Option String, [⟨"cache", some 2⟩, ⟨"file", some 2⟩, ⟨"directory", some 0⟩],
    Json.readOptional Json.readPath, (·.caching.disk.directory), fun _ => none⟩,
  ⟨UInt64, [⟨"cache", some 2⟩, ⟨"file", some 2⟩, ⟨"max_size_mb", some 1⟩], Json.readWord,
    (·.caching.disk.megabytes), fun _ => none⟩,
  ⟨String, [⟨"logging", some 4⟩, ⟨"level", some 0⟩], Json.readString, (·.logging.level),
    (·.level)⟩]

/-- What stands at a path is read into a part of the configuration. -/
def IsReadAt {β : Type} (path : List Step) (read : Origin → Outline → Decoded β)
    (get : Configuration → β) : Prop :=
  ∀ v c, Configuration.read .table (Toml.outline v) = .ok c →
    Given read (get {}) (v.find? path) (get c)

namespace IsReadAt

variable {α β : Type} {path : List Step} {r : Record α} {read : Origin → Outline → Decoded β}
  {get : Configuration → α} {part : α → β} {s : Step}

theorem whole : IsReadAt [] record.read id :=
  fun _ _ h => h

/-- A field of a record that is read at a path. -/
theorem field (h : IsReadAt path r.read get) (hs : r.HasField s read part)
    (hstart : r.start = get {}) : IsReadAt (path ++ [s]) read fun c => part (get c) := by
  intro v c hc
  have hrecord := h v c hc
  rw [Toml.find?_append]
  rcases hfound : v.find? path with _ | w
  · rw [hfound] at hrecord
    exact congrArg part hrecord
  · rw [hfound] at hrecord
    have hpart := hs.given hrecord
    rw [hstart] at hpart
    rw [Option.bind_some, Toml.find?_cons]
    rcases hfield : w.field? s with _ | x
    · rw [hfield] at hpart
      exact hpart
    · rw [hfield] at hpart
      exact hpart

end IsReadAt

/-! ## Sections -/

theorem isReadAt_storage : IsReadAt [⟨"storage", some 0⟩] Storage.record.read (·.storage) :=
  IsReadAt.whole.field (.of_defaulted [] _ rfl (fun _ _ => rfl) (by simp)) rfl

theorem isReadAt_pipeline : IsReadAt [⟨"pipeline", some 1⟩] Pipeline.record.read (·.pipeline) :=
  IsReadAt.whole.field (.of_defaulted [_] _ rfl (fun _ _ => rfl) (by simp)) rfl

theorem isReadAt_caching : IsReadAt [⟨"cache", some 2⟩] Caching.record.read (·.caching) :=
  IsReadAt.whole.field (.of_defaulted [_, _] _ rfl (fun _ _ => rfl) (by simp)) rfl

theorem isReadAt_extensionSettings :
    IsReadAt [⟨"extensions", some 3⟩] (Json.readMap Toml.readTable) (·.extensionSettings) :=
  IsReadAt.whole.field (.of_defaulted [_, _, _] _ rfl (fun _ _ => rfl) (by simp)) rfl

theorem isReadAt_logging : IsReadAt [⟨"logging", some 4⟩] Logging.record.read (·.logging) :=
  IsReadAt.whole.field (.of_defaulted [_, _, _, _] _ rfl (fun _ _ => rfl) (by simp)) rfl

theorem isReadAt_memory :
    IsReadAt [⟨"cache", some 2⟩, ⟨"memory", some 1⟩] MemoryBounds.record.read (·.caching.memory) :=
  isReadAt_caching.field (.of_defaulted [_] _ rfl (fun _ _ => rfl) (by simp)) rfl

theorem isReadAt_disk :
    IsReadAt [⟨"cache", some 2⟩, ⟨"file", some 2⟩] DiskBounds.record.read (·.caching.disk) :=
  isReadAt_caching.field (.of_defaulted [_, _] _ rfl (fun _ _ => rfl) (by simp)) rfl

/-- **What stands at the path of a setting** is read as the setting. -/
theorem isReadAt_of_mem : ∀ S ∈ settings, IsReadAt S.path S.read S.get := by
  simp only [settings, List.forall_mem_cons]
  refine ⟨?_, ?_, ?_, ?_, ?_, ?_, ?_, ?_, ?_, ?_, ?_, List.forall_mem_nil _⟩
  · exact isReadAt_storage.field (.of_defaulted [] _ rfl (fun _ _ => rfl) (by simp)) rfl
  · exact isReadAt_pipeline.field (.of_defaulted [] _ rfl (fun _ _ => rfl) (by simp)) rfl
  · exact isReadAt_pipeline.field (.of_defaulted [_] _ rfl (fun _ _ => rfl) (by simp)) rfl
  · exact isReadAt_pipeline.field (.of_defaulted [_, _] _ rfl (fun _ _ => rfl) (by simp)) rfl
  · exact isReadAt_caching.field (.of_defaulted [] _ rfl (fun _ _ => rfl) (by simp)) rfl
  · exact isReadAt_memory.field (.of_defaulted [] _ rfl (fun _ _ => rfl) (by simp)) rfl
  · exact isReadAt_memory.field (.of_defaulted [_] _ rfl (fun _ _ => rfl) (by simp)) rfl
  · exact isReadAt_memory.field (.of_defaulted [_, _] _ rfl (fun _ _ => rfl) (by simp)) rfl
  · exact isReadAt_disk.field (.of_defaulted [] _ rfl (fun _ _ => rfl) (by simp)) rfl
  · exact isReadAt_disk.field (.of_defaulted [_] _ rfl (fun _ _ => rfl) (by simp)) rfl
  · exact isReadAt_logging.field (.of_defaulted [] _ rfl (fun _ _ => rfl) (by simp)) rfl

/-! ## Settings of extensions -/

/-- The settings of extensions, a table for each of them. -/
def extensionTable (c : Configuration) : Toml :=
  .table (c.extensionSettings.map fun _ t => Toml.table t).entries

/-- **The settings of extensions** are what stands there, with texts in the place of moments. -/
theorem find?_extensionTable {v : Toml} {c : Configuration} {s : Step} {path : List Step}
    (hc : Configuration.read .table v.outline = .ok c)
    (hwhole : ∀ w, v.find? [⟨"extensions", some 3⟩] = some w → w.IsWhole) :
    c.extensionTable.find? (s :: path) =
      (v.find? (⟨"extensions", some 3⟩ :: s :: path)).map Toml.plain := by
  have hread := isReadAt_extensionSettings v c hc
  have hpath := v.find?_append [⟨"extensions", some 3⟩] (s :: path)
  rw [List.singleton_append] at hpath
  rw [hpath]
  rcases hfound : v.find? [⟨"extensions", some 3⟩] with _ | w
  · rw [hfound] at hread
    have hempty : c.extensionSettings = .empty := hread
    rw [extensionTable, hempty]
    rfl
  · rw [hfound] at hread
    rw [extensionTable, Toml.readMap_outline (hwhole w hfound) hread, Toml.find?_plain]
    rfl

/-! ## Reading does not break off -/

open Json.Field (unbroken_defaulted) in
theorem readsTables_read : ReadsTables Configuration.read := by
  have hpath : ReadsTables Json.readPath := Toml.readsTables_readStringAs _
  have hstring : ReadsTables Json.readString := Toml.readsTables_readStringAs _
  have hlist := Toml.readsTables_readList hstring
  have hoptional := Toml.readsTables_readOptional hpath
  have hstrategy : ReadsTables IdStrategy.read := Toml.readsTables_readVariant _
  have hmap := Toml.readsTables_readMap Toml.readsTables_readTable
  have hstorage : ReadsTables Storage.record.read := by
    apply Record.readsTables_read
    simp only [Storage.record, List.forall_mem_cons]
    exact ⟨unbroken_defaulted hpath, List.forall_mem_nil _⟩
  have hpipeline : ReadsTables Pipeline.record.read := by
    apply Record.readsTables_read
    simp only [Pipeline.record, List.forall_mem_cons]
    exact ⟨unbroken_defaulted hlist, unbroken_defaulted Toml.readsTables_readBool,
      unbroken_defaulted hstrategy, List.forall_mem_nil _⟩
  have hmemory : ReadsTables MemoryBounds.record.read := by
    apply Record.readsTables_read
    simp only [MemoryBounds.record, List.forall_mem_cons]
    exact ⟨unbroken_defaulted Toml.readsTables_readWord,
      unbroken_defaulted Toml.readsTables_readSize,
      unbroken_defaulted Toml.readsTables_readWord, List.forall_mem_nil _⟩
  have hdisk : ReadsTables DiskBounds.record.read := by
    apply Record.readsTables_read
    simp only [DiskBounds.record, List.forall_mem_cons]
    exact ⟨unbroken_defaulted hoptional, unbroken_defaulted Toml.readsTables_readWord,
      List.forall_mem_nil _⟩
  have hcaching : ReadsTables Caching.record.read := by
    apply Record.readsTables_read
    simp only [Caching.record, List.forall_mem_cons]
    exact ⟨unbroken_defaulted Toml.readsTables_readBool, unbroken_defaulted hmemory,
      unbroken_defaulted hdisk, List.forall_mem_nil _⟩
  have hlogging : ReadsTables Logging.record.read := by
    apply Record.readsTables_read
    simp only [Logging.record, List.forall_mem_cons]
    exact ⟨unbroken_defaulted hstring, List.forall_mem_nil _⟩
  apply Record.readsTables_read
  simp only [record, List.forall_mem_cons]
  exact ⟨unbroken_defaulted hstorage, unbroken_defaulted hpipeline, unbroken_defaulted hcaching,
    unbroken_defaulted hmap, unbroken_defaulted hlogging, List.forall_mem_nil _⟩

end CodeGraph.Configuration
