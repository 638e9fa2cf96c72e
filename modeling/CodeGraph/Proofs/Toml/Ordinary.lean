import CodeGraph.Proofs.Toml.Reading

/-!
# Values that can be read

A value that has no table which begins as one that stands for a moment can be read from a table, and
what is read is the value with a text in the place of every moment (`IsOrdinary.read`). So can the
settings of extensions (`readMap_ordinary`).
-/

namespace CodeGraph.Toml

open Json (Decoded Outline Origin)

/-- The entries of tables are in increasing order of name, and no table begins as one that stands for
a moment. -/
inductive IsOrdinary : Toml → Prop
  | string (s : String) : IsOrdinary (.string s)
  | integer (i : Int64) : IsOrdinary (.integer i)
  | double (x : Float) : IsOrdinary (.double x)
  | bool (b : Bool) : IsOrdinary (.bool b)
  | moment (m : Moment) : IsOrdinary (.moment m)
  | array {items : List Toml} (ordinary : ∀ v ∈ items, IsOrdinary v) : IsOrdinary (.array items)
  | table {t : Table} (sorted : t.Pairwise (fun a b => a.1 < b.1))
      (unmarked : t.head?.map Prod.fst ≠ some momentName) (ordinary : ∀ e ∈ t, IsOrdinary e.2) :
      IsOrdinary (.table t)

/-- The entries of an extension. -/
structure IsOrdinaryTable (t : Table) : Prop where
  sorted : t.Pairwise (fun a b => a.1 < b.1)
  ordinary : ∀ e ∈ t, IsOrdinary e.2

variable {v : Toml} {t : Table}

theorem IsOrdinary.isWhole (h : v.IsOrdinary) : v.IsWhole := by
  induction h with
  | string s => exact .string s
  | integer i => exact .integer i
  | double x => exact .double x
  | bool b => exact .bool b
  | moment m => exact .moment m
  | array _ ih => exact .array ih
  | @table t sorted unmarked _ ih =>
    refine .table sorted ?_ ih
    intro hnames
    rw [← List.head?_map, hnames] at unmarked
    exact unmarked rfl

theorem IsOrdinaryTable.isWholeTable (h : IsOrdinaryTable t) : IsWholeTable t :=
  ⟨h.sorted, fun e he => (h.ordinary e he).isWhole⟩

/-! ## Reading -/

theorem readItems_ordinary {items : List Toml}
    (h : ∀ v ∈ items, read .table v.outline = .ok v.plain) :
    readItems .table (outlineItems items) = .ok (plainItems items) := by
  induction items with
  | nil => rfl
  | cons v items ih =>
    obtain ⟨hv, hitems⟩ := List.forall_mem_cons.1 h
    rw [outlineItems, readItems, hv, ih hitems]
    rfl

section Entries

variable {α : Type} {m : NameMap α} {k : String} {x : α}

/-- An entry that comes after those of a map and before those of a table is put between them. -/
theorem insert_between (hbefore : ∀ a ∈ m.entries, ∀ e ∈ (k, v) :: t, a.1 < e.1)
    (hlt : ∀ e ∈ t, k < e.1) :
    (m.insert k x).entries = m.entries ++ [(k, x)] ∧
      ∀ a ∈ (m.insert k x).entries, ∀ e ∈ t, a.1 < e.1 := by
  have hinsert : (m.insert k x).entries = m.entries ++ [(k, x)] :=
    NameMap.place_append fun a ha => hbefore a ha _ List.mem_cons_self
  refine ⟨hinsert, ?_⟩
  intro a ha e he
  rw [hinsert] at ha
  rcases List.mem_append.1 ha with ha | ha
  · exact hbefore a ha e (List.mem_cons_of_mem _ he)
  · rw [List.mem_singleton.1 ha]
    exact hlt e he

/-- Entries in their order that can be read are read one after the other. -/
theorem readEntries_ordinary {readValue : Outline → Decoded α} (get : Toml → α)
    (hsorted : t.Pairwise fun a b => a.1 < b.1) (hbefore : ∀ a ∈ m.entries, ∀ e ∈ t, a.1 < e.1)
    (h : ∀ e ∈ t, readValue e.2.outline = .ok (get e.2)) :
    ∃ m', Json.readEntries readValue m (outlineEntries t) = .ok m' ∧
      m'.entries = m.entries ++ t.map fun e => (e.1, get e.2) := by
  induction t generalizing m with
  | nil => exact ⟨m, rfl, (List.append_nil _).symm⟩
  | cons e t ih =>
    obtain ⟨k, v⟩ := e
    obtain ⟨hlt, hsorted⟩ := List.pairwise_cons.1 hsorted
    obtain ⟨hv, ht⟩ := List.forall_mem_cons.1 h
    obtain ⟨hinsert, hbefore'⟩ := insert_between (x := get v) hbefore hlt
    obtain ⟨m', hread, hentries⟩ := ih hsorted hbefore' ht
    refine ⟨m', ?_, ?_⟩
    · rw [outlineEntries, Json.readEntries, hv]
      exact hread
    · rw [hentries, hinsert, List.append_assoc]
      rfl

end Entries

/-- Entries of new names are read as any entries are. -/
theorem readEntries_eq {m : NameMap Toml} (hsorted : t.Pairwise fun a b => a.1 < b.1)
    (hbefore : ∀ a ∈ m.entries, ∀ e ∈ t, a.1 < e.1)
    (h : ∀ e ∈ t, read .table e.2.outline = .ok e.2.plain) :
    readEntries .table m (outlineEntries t) =
      Json.readEntries (read .table) m (outlineEntries t) := by
  induction t generalizing m with
  | nil => rfl
  | cons e t ih =>
    obtain ⟨k, v⟩ := e
    obtain ⟨hlt, hsorted⟩ := List.pairwise_cons.1 hsorted
    obtain ⟨hv, ht⟩ := List.forall_mem_cons.1 h
    have hnew : m.contains k = false := by
      unfold NameMap.contains
      rw [NameMap.get?_eq_none_iff.2 fun e he =>
        String.ne_of_lt (hbefore e he (k, v) List.mem_cons_self)]
      rfl
    obtain ⟨-, hbefore'⟩ := insert_between (x := v.plain) hbefore hlt
    rw [outlineEntries, readEntries, Json.readEntries, hnew, hv]
    exact ih hsorted hbefore' ht

/-- **An ordinary value can be read**, and it is read with a text in the place of every moment. -/
theorem IsOrdinary.read (h : v.IsOrdinary) : Toml.read .table v.outline = .ok v.plain := by
  induction h with
  | string | double | bool | moment => rfl
  | integer i =>
    have hlt : (signedInteger i).val < 9223372036854775808 := Int64.toInt_lt i
    rw [outline, Toml.read, if_pos hlt]
    exact congrArg (Except.ok ∘ Toml.integer) (Int64.ofInt_toInt i)
  | @array items _ ih =>
    rw [outline, Toml.read]
    show (readItems .table (outlineItems items)).map Toml.array = _
    rw [readItems_ordinary ih]
    rfl
  | @table t sorted unmarked _ ih =>
    cases t with
    | nil => rfl
    | cons e t =>
      obtain ⟨k, v⟩ := e
      have hk : k ≠ momentName := fun heq => unmarked (congrArg some heq)
      obtain ⟨hlt, hsorted⟩ := List.pairwise_cons.1 sorted
      obtain ⟨hv, ht⟩ := List.forall_mem_cons.1 ih
      have hbefore : ∀ a ∈ (NameMap.ofList [(k, v.plain)]).entries, ∀ e ∈ t, a.1 < e.1 := by
        intro a ha
        obtain rfl : a = (k, v.plain) := List.mem_singleton.1 ha
        exact hlt
      obtain ⟨m, hread, hentries⟩ := readEntries_ordinary plain hsorted hbefore ht
      rw [← readEntries_eq hsorted hbefore ht] at hread
      have hplain : m.entries = plainEntries ((k, v) :: t) := by
        rw [hentries, plainEntries_eq_map, List.map_cons]
        rfl
      rw [outline, outlineEntries, Toml.read]
      simp only [bind, Except.bind, Origin.enter, if_neg hk, hv, Except.mapError, hread, hplain]
      rfl

/-- The entries of an extension can be read. -/
theorem readTable_ordinary (h : IsOrdinaryTable t) :
    readTable .table (Toml.table t).outline = .ok (plainEntries t) := by
  obtain ⟨m, hread, hentries⟩ := readEntries_ordinary (m := .empty) plain h.sorted
    (by simp [NameMap.empty]) fun e he => (h.ordinary e he).read
  have hplain : m.entries = plainEntries t := by
    rw [hentries, plainEntries_eq_map]
    rfl
  unfold readTable
  rw [outline, Json.readMap]
  simp only [bind, Except.bind, Origin.enter, hread, Except.map, hplain]

/-- The entries of a value, if it is a table. -/
def entriesOf : Toml → Table
  | .table t => t
  | _ => []

/-- The settings of extensions can be read. -/
theorem readMap_ordinary {m : NameMap Table} (h : ∀ e ∈ m.entries, IsOrdinaryTable e.2) :
    Json.readMap readTable .table (Toml.table (m.map fun _ t => .table t).entries).outline =
      .ok (m.map fun _ t => plainEntries t) := by
  have htables : ∀ e ∈ (m.map fun _ t => Toml.table t).entries,
      readTable .table e.2.outline = .ok e.2.plain.entriesOf := by
    intro e he
    obtain ⟨f, hf, rfl⟩ := List.mem_map.1 he
    exact readTable_ordinary (h f hf)
  obtain ⟨m', hread, hentries⟩ := readEntries_ordinary (m := .empty) (fun v => v.plain.entriesOf)
    (m.map fun _ t => Toml.table t).sorted (by simp [NameMap.empty]) htables
  have hplain : m' = m.map fun _ t => plainEntries t := by
    refine NameMap.ext_entries (hentries.trans ?_)
    exact (List.map_map ..).trans rfl
  rw [outline, Json.readMap]
  simp only [bind, Except.bind, Origin.enter, hread, hplain]

end CodeGraph.Toml
