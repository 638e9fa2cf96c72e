import CodeGraph.Proofs.Toml.Layering

/-!
# The order of entries

A table is written in the order of writing and read in the order of names. A value whose tables hold
their entries in the order of names is got back from any arrangement of it (`ordered_arranged`).
-/

namespace CodeGraph

namespace NameMap

variable {β : Type} {m : NameMap β} {l : List (String × β)}

/-- The entries of a map make it again in whatever order they come. -/
theorem ofList_of_perm (h : l.Perm m.entries) : ofList l = m := by
  have hnodup : (l.map Prod.fst).Nodup := (h.map Prod.fst).nodup_iff.2 m.nodup_names
  have hperm := (perm_insertMany (m := empty) hnodup fun _ _ => rfl).trans
    ((List.append_nil l).symm ▸ h)
  refine ext_get? fun k => Option.ext fun v => ?_
  rw [get?_eq_some_iff, get?_eq_some_iff]
  exact hperm.mem_iff

theorem entries_insertMany (m : NameMap β) (l : List (String × β)) :
    (m.insertMany l).entries = l.foldl (fun es e => place e.1 e.2 es) m.entries := by
  induction l generalizing m with
  | nil => rfl
  | cons e l ih => exact ih (m.insert e.1 e.2)

/-- The entries of a map are put in their places one after another. -/
theorem entries_ofList (l : List (String × β)) :
    (ofList l).entries = l.foldl (fun es e => place e.1 e.2 es) [] :=
  entries_insertMany empty l

end NameMap

namespace Toml

mutual

/-- The value with the entries of every table in the order of names. -/
def ordered : Toml → Toml
  | .array items => .array (orderedItems items)
  | .table entries => .table (NameMap.ofList (orderedEntries entries)).entries
  | v => v

def orderedItems : List Toml → List Toml
  | [] => []
  | v :: rest => v.ordered :: orderedItems rest

def orderedEntries : Table → Table
  | [] => []
  | (k, v) :: rest => (k, v.ordered) :: orderedEntries rest

end

/-- The table of a file that was written in any order. -/
def orderedTable (t : Table) : Table :=
  (NameMap.ofList (orderedEntries t)).entries

variable {t : Table} {v : Toml}

theorem orderedItems_eq_map (items : List Toml) : orderedItems items = items.map ordered := by
  induction items with
  | nil => rfl
  | cons v items ih => rw [orderedItems, ih, List.map_cons]

theorem orderedEntries_eq_map (t : Table) :
    orderedEntries t = t.map fun e => (e.1, e.2.ordered) := by
  induction t with
  | nil => rfl
  | cons e t ih => rw [orderedEntries, ih, List.map_cons]

theorem arrangedItems_eq_map (items : List Toml) : arrangedItems items = items.map arranged := by
  induction items with
  | nil => rfl
  | cons v items ih => rw [arrangedItems, ih, List.map_cons]

theorem arrangedEntries_eq_map (t : Table) :
    arrangedEntries t = t.map fun e => (e.1, e.2.arranged) := by
  induction t with
  | nil => rfl
  | cons e t ih => rw [arrangedEntries, ih, List.map_cons]

/-- No array is a table. -/
theorem not_isTable_of_holdsTable (h : v.holdsTable = true) : v.isTable = false := by
  cases v with
  | array => rfl
  | _ => cases h

/-- The order of writing leaves nothing out and adds nothing. -/
theorem perm_inWritingOrder (t : Table) : (inWritingOrder t).Perm t := by
  have htables := List.filter_append_perm (fun e : String × Toml => e.2.isTable) t
  have harrays := List.filter_append_perm (fun e : String × Toml => e.2.holdsTable)
    (t.filter fun e => !e.2.isTable)
  have hholds : ∀ e : String × Toml, (e.2.holdsTable && !e.2.isTable) = e.2.holdsTable := by
    intro e
    rcases h : e.2.holdsTable with _ | _
    · rfl
    · rw [not_isTable_of_holdsTable h]
      rfl
  have hplain : ∀ e : String × Toml,
      (!e.2.holdsTable && !e.2.isTable) = (!e.2.isTable && !e.2.holdsTable) :=
    fun e => Bool.and_comm ..
  rw [List.filter_filter, List.filter_filter] at harrays
  simp only [hholds, hplain] at harrays
  unfold inWritingOrder
  refine (List.perm_append_comm.append_right _).trans ?_
  exact (harrays.append_right _).trans (List.perm_append_comm.trans htables)

/-- Entries in any order are put back in the order of names. -/
theorem ofList_ordered (h : IsWholeTable t) {l : Table} (hl : l.Perm (arrangedEntries t))
    (hsame : ∀ e ∈ t, e.2.arranged.ordered = e.2) :
    (NameMap.ofList (orderedEntries l)).entries = t := by
  have hback : (arrangedEntries t).map (fun e => (e.1, e.2.ordered)) = t := by
    rw [arrangedEntries_eq_map, List.map_map]
    refine (List.map_congr_left fun e he => ?_).trans (List.map_id _)
    exact Prod.ext rfl (hsame e he)
  have hperm := hl.map fun e : String × Toml => (e.1, e.2.ordered)
  rw [hback] at hperm
  rw [orderedEntries_eq_map, NameMap.ofList_of_perm (m := ⟨t, h.sorted⟩) hperm]

/-- **An arranged value is got back**, entry by entry, in the order of names. -/
theorem ordered_arranged (h : v.IsWhole) : v.arranged.ordered = v := by
  induction h with
  | string | integer | double | bool | moment => rfl
  | @array items whole ih =>
    rw [arranged, ordered, orderedItems_eq_map, arrangedItems_eq_map, List.map_map]
    exact congrArg Toml.array ((List.map_congr_left ih).trans (List.map_id _))
  | @table t sorted named whole ih =>
    rw [arranged, ordered, ofList_ordered ⟨sorted, whole⟩ (perm_inWritingOrder _) ih]

/-- The entries of a table whose values are arranged are got back. -/
theorem ordered_table_arrangedEntries (h : IsWholeTable t) :
    (Toml.table (arrangedEntries t)).ordered = .table t := by
  rw [ordered, ofList_ordered h (.refl _) fun e he => ordered_arranged (h.whole e he)]

end Toml

end CodeGraph
