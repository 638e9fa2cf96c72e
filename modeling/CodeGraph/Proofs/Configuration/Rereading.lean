import CodeGraph.Configuration.Loader
import CodeGraph.Proofs.Toml.Ordering
import CodeGraph.Proofs.Toml.Ordinary

/-!
# Configurations read back

The table that a configuration is written as, with its entries in the order of names again, describes
the configuration, but for the moments among the settings of extensions, which come as texts
(`Configuration.interpret_orderedTable`).
-/

namespace CodeGraph.Configuration

open Json (Decoded Record)
open Toml (orderedTable plainEntries)

variable {c : Configuration} {t : Toml.Table} {n : UInt64} {v : Toml}

/-- The configuration with texts in the place of moments. -/
def plain (c : Configuration) : Configuration :=
  { c with extensionSettings := c.extensionSettings.map fun _ t => plainEntries t }

/-- The settings of extensions can be read. -/
def IsOrdinary (c : Configuration) : Prop :=
  ∀ e ∈ c.extensionSettings.entries, Toml.IsOrdinaryTable e.2

/-- The text of the configuration is read as the table that it was written from, with the entries in
the order of names. -/
def IsReadBack (c : Configuration) : Prop :=
  ∀ t, c.toTable? = some t → Toml.entriesWritable t = true →
    Toml.ofText? (Toml.print t) = some (orderedTable t)

/-! ## Numbers -/

theorem toInt_of_settingsWord? (h : settingsWord? n = some v) :
    ∃ i : Int64, v = .integer i ∧ i.toInt = n.toNat := by
  unfold settingsWord? at h
  split at h
  · next hn =>
    cases h
    exact ⟨_, rfl, Int64.toInt_ofNat_of_lt hn⟩
  · cases h

theorem readNatural_of_settingsWord? (h : settingsWord? n = some v) (expected : String) :
    Json.readNatural (UInt64.size - 1) expected v.outline = .ok n.toNat := by
  obtain ⟨i, rfl, hi⟩ := toInt_of_settingsWord? h
  have hlt := n.toNat_lt
  have hsize : UInt64.size = 2 ^ 64 := rfl
  have hval : (Toml.signedInteger i).val = n.toNat := hi
  rw [Toml.outline, Json.readNatural, hval, if_pos ⟨by omega, by omega⟩]
  rfl

theorem readWord_of_settingsWord? (h : settingsWord? n = some v) :
    Json.readWord .table v.outline = .ok n := by
  rw [Json.readWord, readNatural_of_settingsWord? h]
  exact congrArg Except.ok (UInt64.ofNat_toNat ..)

theorem readSize_of_settingsWord? (h : settingsWord? n = some v) :
    Json.readSize .table v.outline = .ok n := by
  rw [Json.readSize, readNatural_of_settingsWord? h]
  exact congrArg Except.ok (UInt64.ofNat_toNat ..)

/-- A number is no table. -/
theorem ordered_of_settingsWord? (h : settingsWord? n = some v) : v.ordered = v := by
  obtain ⟨i, rfl, -⟩ := toInt_of_settingsWord? h
  rfl

/-! ## Sections -/

section Record

variable {α β : Type} {r : Record α} {seen : List String} {a b : α} {x : β} {k : String}
  {read : Json.Origin → Json.Outline → Decoded β} {set : β → α → α}

/-- The entries of a table, after some that have been read, take a record to another one. -/
def Takes (r : Record α) (seen : List String) (a : α) (t : Toml.Table) (b : α) : Prop :=
  ∀ other, ∃ seen', r.readMembers .table other seen a (Toml.outlineEntries t) = .ok (seen', b)

theorem Takes.nil : Takes r seen a [] a :=
  fun _ => ⟨seen, rfl⟩

/-- An entry of the name of a field that has not been read is read into the record. -/
theorem Takes.cons (hread : read .table v.outline = .ok x)
    (hfield : r.fields.find? (fun f => f.name == k) = some (.defaulted k read set))
    (hseen : seen.contains k = false) (h : Takes r (k :: seen) (set x a) t b) :
    Takes r seen a ((k, v) :: t) b := by
  intro other
  obtain ⟨seen', hrest⟩ := h other
  refine ⟨seen', ?_⟩
  rw [Toml.outlineEntries, Record.readMembers, hfield, hseen]
  simp only [Json.Field.defaulted, hread]
  exact hrest

/-- A record without needed fields is what the entries of a table take it to. -/
theorem Takes.read_eq_ok (h : Takes r [] r.start t a) (hneeded : ∀ f ∈ r.fields, f.required = false) :
    r.read .table (Toml.table t).outline = .ok a := by
  have hcomplete : ∀ seen, r.complete seen a = .ok a := by
    intro seen
    have hnone : r.fields.find? (fun f => f.required && !seen.contains f.name) = none := by
      refine List.find?_eq_none.2 fun f hf => ?_
      rw [hneeded f hf]
      exact Bool.false_ne_true
    rw [Record.complete, hnone]
  rw [Toml.outline, Record.read]
  refine Json.bind_eq_ok.2 ⟨.table, rfl, ?_⟩
  exact Json.bind_eq_ok.2 ⟨_, (h _).choose_spec, hcomplete _⟩

end Record

theorem readList_strings (l : List String) :
    Json.readList Json.readString .table (Toml.array (l.map .string)).outline = .ok l := by
  have hitems : Json.readItems (Json.readString .table) (Toml.outlineItems (l.map .string)) =
      .ok l := by
    induction l with
    | nil => rfl
    | cons s l ih =>
      rw [List.map_cons, Toml.outlineItems, Json.readItems, ih]
      rfl
  rw [Toml.outline, Json.readList]
  exact hitems

theorem read_storage (s : Storage) :
    Storage.record.read .table (Toml.table [("loom_dir", .string s.directory)]).outline = .ok s :=
  rfl

theorem read_pipeline (p : Pipeline) :
    Pipeline.record.read .table (Toml.table [("concurrent_parse", .bool p.concurrent),
      ("extensions", .array (p.extensionNames.map .string)),
      ("id_strategy", .string p.strategy.name)]).outline = .ok p := by
  have hstrategy : IdStrategy.read .table (Toml.string p.strategy.name).outline =
      .ok p.strategy := by
    cases p.strategy <;> rfl
  refine Takes.read_eq_ok ?_ (by simp [Pipeline.record, Json.Field.defaulted])
  refine .cons (v := .bool _) rfl rfl rfl ?_
  refine .cons (readList_strings _) rfl rfl ?_
  exact .cons hstrategy rfl rfl .nil

theorem read_memory {m : MemoryBounds} {items megabytes seconds : Toml}
    (hitems : settingsWord? m.maxItems = some items)
    (hmegabytes : settingsWord? m.megabytes = some megabytes)
    (hseconds : settingsWord? m.ttlSeconds = some seconds) :
    MemoryBounds.record.read .table (Toml.table [("max_items", items),
      ("max_size_mb", megabytes), ("ttl_secs", seconds)]).outline = .ok m := by
  refine Takes.read_eq_ok ?_ (by simp [MemoryBounds.record, Json.Field.defaulted])
  refine .cons (readSize_of_settingsWord? hitems) rfl rfl ?_
  refine .cons (readWord_of_settingsWord? hmegabytes) rfl rfl ?_
  exact .cons (readWord_of_settingsWord? hseconds) rfl rfl .nil

/-- The entry of the directory of the disk layer, if there is one. -/
def directoryEntries (d : Option String) : Toml.Table :=
  (d.map fun d => ("directory", Toml.string d)).toList

theorem read_disk {d : DiskBounds} {megabytes : Toml}
    (hmegabytes : settingsWord? d.megabytes = some megabytes) :
    DiskBounds.record.read .table (Toml.table (directoryEntries d.directory ++
      [("max_size_mb", megabytes)])).outline = .ok d := by
  obtain ⟨directory, n⟩ := d
  refine Takes.read_eq_ok ?_ (by simp [DiskBounds.record, Json.Field.defaulted])
  cases directory with
  | none => exact .cons (readWord_of_settingsWord? hmegabytes) rfl rfl .nil
  | some directory =>
    refine .cons (v := .string _) rfl rfl rfl ?_
    exact .cons (readWord_of_settingsWord? hmegabytes) rfl rfl .nil

/-- The numbers of a configuration as settings values. -/
structure Numbers (c : Configuration) where
  megabytes : Toml
  items : Toml
  seconds : Toml
  diskMegabytes : Toml
  megabytes_eq : settingsWord? c.caching.memory.megabytes = some megabytes
  items_eq : settingsWord? c.caching.memory.maxItems = some items
  seconds_eq : settingsWord? c.caching.memory.ttlSeconds = some seconds
  diskMegabytes_eq : settingsWord? c.caching.disk.megabytes = some diskMegabytes

/-- The table that describes a configuration, its entries in the order of names. -/
def Numbers.table (w : Numbers c) : Toml.Table := [
  ("cache", .table [
    ("enable_file_cache", .bool c.caching.useDisk),
    ("file", .table (directoryEntries c.caching.disk.directory ++
      [("max_size_mb", w.diskMegabytes)])),
    ("memory", .table [("max_items", w.items), ("max_size_mb", w.megabytes),
      ("ttl_secs", w.seconds)])]),
  ("extensions", .table (c.extensionSettings.map fun _ t => .table t).entries),
  ("logging", .table [("level", .string c.logging.level)]),
  ("pipeline", .table [("concurrent_parse", .bool c.pipeline.concurrent),
    ("extensions", .array (c.pipeline.extensionNames.map .string)),
    ("id_strategy", .string c.pipeline.strategy.name)]),
  ("storage", .table [("loom_dir", .string c.storage.directory)])]

theorem read_caching (w : Numbers c) :
    Caching.record.read .table (Toml.table [("enable_file_cache", .bool c.caching.useDisk),
      ("file", .table (directoryEntries c.caching.disk.directory ++
        [("max_size_mb", w.diskMegabytes)])),
      ("memory", .table [("max_items", w.items), ("max_size_mb", w.megabytes),
        ("ttl_secs", w.seconds)])]).outline = .ok c.caching := by
  refine Takes.read_eq_ok ?_ (by simp [Caching.record, Json.Field.defaulted])
  refine .cons (v := .bool _) rfl rfl rfl ?_
  refine .cons (read_disk w.diskMegabytes_eq) rfl rfl ?_
  exact .cons (read_memory w.items_eq w.megabytes_eq w.seconds_eq) rfl rfl .nil

/-- The table describes the configuration with texts in the place of moments. -/
theorem read_table (hc : c.IsOrdinary) (w : Numbers c) :
    Configuration.read .table (Toml.table w.table).outline = .ok c.plain := by
  refine Takes.read_eq_ok ?_ (by simp [record, Json.Field.defaulted])
  refine .cons (read_caching w) rfl rfl ?_
  refine .cons (Toml.readMap_ordinary hc) rfl rfl ?_
  refine .cons (v := .table [("level", .string _)]) rfl rfl rfl ?_
  refine .cons (read_pipeline _) rfl rfl ?_
  exact .cons (read_storage _) rfl rfl .nil

/-! ## The order of entries -/

theorem ordered_bool (b : Bool) : (Toml.bool b).ordered = .bool b := rfl

theorem ordered_string (s : String) : (Toml.string s).ordered = .string s := rfl

theorem Numbers.ordered_eq (w : Numbers c) :
    w.megabytes.ordered = w.megabytes ∧ w.items.ordered = w.items ∧
      w.seconds.ordered = w.seconds ∧ w.diskMegabytes.ordered = w.diskMegabytes :=
  ⟨ordered_of_settingsWord? w.megabytes_eq, ordered_of_settingsWord? w.items_eq,
    ordered_of_settingsWord? w.seconds_eq, ordered_of_settingsWord? w.diskMegabytes_eq⟩

theorem ordered_strings (l : List String) :
    (Toml.array (l.map .string)).ordered = .array (l.map .string) := by
  rw [Toml.ordered, Toml.orderedItems_eq_map, List.map_map]
  rfl

theorem ordered_extensions (hc : c.IsOrdinary) :
    (Toml.table (c.extensionSettings.map fun _ t => .table (settingsEntries t)).entries).ordered =
      .table (c.extensionSettings.map fun _ t => .table t).entries := by
  have hentries : Toml.orderedEntries
      (c.extensionSettings.map fun _ t => Toml.table (settingsEntries t)).entries =
        (c.extensionSettings.map fun _ t => Toml.table t).entries := by
    rw [Toml.orderedEntries_eq_map]
    refine (List.map_map ..).trans (List.map_congr_left fun e he => Prod.ext rfl ?_)
    exact Toml.ordered_table_arrangedEntries (hc e he).isWholeTable
  rw [Toml.ordered, hentries, NameMap.ofList, NameMap.insertMany_entries]

theorem exists_numbers (ht : c.toTable? = some t) : ∃ w : Numbers c, t = [
    ("storage", .table [("loom_dir", .string c.storage.directory)]),
    ("pipeline", .table [
      ("extensions", .array (c.pipeline.extensionNames.map .string)),
      ("concurrent_parse", .bool c.pipeline.concurrent),
      ("id_strategy", .string c.pipeline.strategy.name)]),
    ("cache", .table [
      ("enable_file_cache", .bool c.caching.useDisk),
      ("memory", .table [("max_size_mb", w.megabytes), ("max_items", w.items),
        ("ttl_secs", w.seconds)]),
      ("file", .table (directoryEntries c.caching.disk.directory ++
        [("max_size_mb", w.diskMegabytes)]))]),
    ("extensions",
      .table (c.extensionSettings.map fun _ t => Toml.table (settingsEntries t)).entries),
    ("logging", .table [("level", .string c.logging.level)])] := by
  unfold toTable? at ht
  obtain ⟨megabytes, hmegabytes, ht⟩ := Option.bind_eq_some_iff.1 ht
  obtain ⟨items, hitems, ht⟩ := Option.bind_eq_some_iff.1 ht
  obtain ⟨seconds, hseconds, ht⟩ := Option.bind_eq_some_iff.1 ht
  obtain ⟨diskMegabytes, hdisk, ht⟩ := Option.bind_eq_some_iff.1 ht
  cases ht
  exact ⟨⟨_, _, _, _, hmegabytes, hitems, hseconds, hdisk⟩, rfl⟩

theorem ordered_pipeline (p : Pipeline) :
    (Toml.table [("extensions", .array (p.extensionNames.map .string)),
      ("concurrent_parse", .bool p.concurrent), ("id_strategy", .string p.strategy.name)]).ordered =
      .table [("concurrent_parse", .bool p.concurrent),
        ("extensions", .array (p.extensionNames.map .string)),
        ("id_strategy", .string p.strategy.name)] := by
  rw [Toml.ordered, NameMap.entries_ofList]
  simp only [List.foldl, Toml.orderedEntries, ordered_strings, ordered_bool, ordered_string]
  rfl

theorem ordered_memory (w : Numbers c) :
    (Toml.table [("max_size_mb", w.megabytes), ("max_items", w.items),
      ("ttl_secs", w.seconds)]).ordered =
      .table [("max_items", w.items), ("max_size_mb", w.megabytes), ("ttl_secs", w.seconds)] := by
  rw [Toml.ordered, NameMap.entries_ofList]
  simp only [List.foldl, Toml.orderedEntries, w.ordered_eq]
  rfl

theorem ordered_disk (w : Numbers c) :
    (Toml.table (directoryEntries c.caching.disk.directory ++
      [("max_size_mb", w.diskMegabytes)])).ordered =
      .table (directoryEntries c.caching.disk.directory ++
        [("max_size_mb", w.diskMegabytes)]) := by
  rw [Toml.ordered, NameMap.entries_ofList]
  rcases c.caching.disk.directory with _ | d
  · simp only [directoryEntries, Option.map_none, Option.toList_none, List.nil_append,
      Toml.orderedEntries, w.ordered_eq]
    rfl
  · simp only [directoryEntries, Option.map_some, Option.toList_some, List.cons_append,
      List.nil_append, Toml.orderedEntries, ordered_string, w.ordered_eq, List.foldl]
    rfl

theorem ordered_caching (w : Numbers c) :
    (Toml.table [("enable_file_cache", .bool c.caching.useDisk),
      ("memory", .table [("max_size_mb", w.megabytes), ("max_items", w.items),
        ("ttl_secs", w.seconds)]),
      ("file", .table (directoryEntries c.caching.disk.directory ++
        [("max_size_mb", w.diskMegabytes)]))]).ordered =
      .table [("enable_file_cache", .bool c.caching.useDisk),
        ("file", .table (directoryEntries c.caching.disk.directory ++
          [("max_size_mb", w.diskMegabytes)])),
        ("memory", .table [("max_items", w.items), ("max_size_mb", w.megabytes),
          ("ttl_secs", w.seconds)])] := by
  rw [Toml.ordered, NameMap.entries_ofList]
  simp only [List.foldl, Toml.orderedEntries, ordered_bool, ordered_memory, ordered_disk]
  rfl

/-- A section of one string. -/
theorem ordered_single (k s : String) :
    (Toml.table [(k, .string s)]).ordered = .table [(k, .string s)] :=
  rfl

/-- A configuration that can be written is written as the table that describes it, in some order. -/
theorem orderedTable_toTable (hc : c.IsOrdinary) (ht : c.toTable? = some t) :
    ∃ w : Numbers c, orderedTable t = w.table := by
  obtain ⟨w, rfl⟩ := exists_numbers ht
  refine ⟨w, ?_⟩
  rw [orderedTable, NameMap.entries_ofList, Numbers.table]
  simp only [List.foldl, Toml.orderedEntries, ordered_single, ordered_pipeline, ordered_caching,
    ordered_extensions hc]
  rfl

/-- **A configuration is read back** from the table that it is written as, with texts in the place of
moments. -/
theorem interpret_orderedTable (hc : c.IsOrdinary) (ht : c.toTable? = some t) :
    ConfigurationLoader.interpret (orderedTable t) = .ok c.plain := by
  obtain ⟨w, hw⟩ := orderedTable_toTable hc ht
  rw [hw, ConfigurationLoader.interpret, Toml.decode, read_table hc w]
  rfl

end CodeGraph.Configuration
