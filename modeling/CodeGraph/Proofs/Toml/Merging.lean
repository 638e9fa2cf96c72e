import CodeGraph.Proofs.Toml.Layering

/-!
# Merged tables, path by path

A path of names leads from table to table; only its last name may have any other value
(`Toml.at?`). Laying one table over another settles each path by what the two of them bind there
(`Toml.Overlaid`). At a path that the upper table binds, its value is laid over what the lower one
has there (`at?_mergeValue`); nothing is below a value that is no table; and elsewhere the lower table
shows through (`at?_mergeValue_of_none`).

Since a table is told by what it binds, laying the same table over another one once more changes
nothing (`mergeValue_again`).
-/

namespace CodeGraph.Toml

/-! ## Tables in their order -/

/-- The entries of a table, and of the tables in it, are in increasing order of name: each name has
one entry. -/
inductive IsSorted : Toml → Prop
  | plain {v : Toml} (notTable : v.isTable = false) : IsSorted v
  | table {t : Table} (sorted : t.Pairwise (fun a b => a.1 < b.1))
      (entries : ∀ e ∈ t, IsSorted e.2) : IsSorted (.table t)

variable {base upper t : Table} {k : String} {p rest : List String} {v w : Toml}

theorem IsSorted.entriesSorted (h : IsSorted (.table t)) : t.Pairwise (fun a b => a.1 < b.1) := by
  cases h with
  | plain h => cases h
  | table sorted _ => exact sorted

theorem IsSorted.of_lookup (h : IsSorted (.table t)) (hk : t.lookup k = some v) : v.IsSorted := by
  cases h with
  | plain h => cases h
  | table sorted entries =>
    exact entries (k, v) (NameMap.get?_eq_some_iff (m := ⟨t, sorted⟩).1 hk)

/-- The values of a file are in their order. -/
theorem IsWhole.isSorted (h : v.IsWhole) : v.IsSorted := by
  induction h with
  | table sorted _ _ ih => exact .table sorted ih
  | _ => exact .plain rfl

/-! ## Paths of names -/

/-- What a path of names leads to; every name but the last one leads to a table. -/
def at? (p : List String) (v : Toml) : Option Toml :=
  v.find? (p.map fun k => ⟨k, none⟩)

@[simp] theorem at?_nil (v : Toml) : v.at? [] = some v := rfl

@[simp] theorem at?_table (t : Table) :
    (Toml.table t).at? (k :: p) = (t.lookup k).bind (at? p) := rfl

theorem at?_of_plain (h : v.isTable = false) : v.at? (k :: p) = none := by
  cases v <;> first | rfl | cases h

theorem at?_append (v : Toml) (p rest : List String) :
    v.at? (p ++ rest) = (v.at? p).bind (at? rest) := by
  rw [at?, List.map_append, find?_append]
  rfl

theorem eq_table_of_isTable (h : v.isTable = true) : ∃ t, v = .table t := by
  cases v with
  | table t => exact ⟨t, rfl⟩
  | _ => cases h

/-! ## A value laid over another one -/

/-- A value is laid over another one entry by entry if both are tables, and else it stays as it
is. -/
theorem mergeValue_cases (old : Option Toml) (v : Toml) :
    (∃ t u, v = .table t ∧ old = some (.table u) ∧ mergeValue old v = .table (merge u t)) ∨
      ((v.isTable = true → ∀ u, old = some u → u.isTable = false) ∧ mergeValue old v = v) := by
  cases v with
  | table t =>
    by_cases hold : ∃ u, old = some (.table u)
    · obtain ⟨u, rfl⟩ := hold
      exact .inl ⟨t, u, rfl, rfl, by rw [mergeValue]⟩
    · refine .inr ⟨fun _ u hu => ?_, mergeValue_table old fun u hu => hold ⟨u, hu⟩⟩
      rw [Bool.eq_false_iff]
      intro htable
      obtain ⟨t', rfl⟩ := eq_table_of_isTable htable
      exact hold ⟨t', hu⟩
  | _ => exact .inr ⟨fun h => (by cases h), rfl⟩

theorem mergeValue_of_plain (old : Option Toml) (h : v.isTable = false) : mergeValue old v = v := by
  cases v <;> first | rfl | cases h

/-- Nothing is below a value that is no table. -/
theorem bind_at?_of_plain {old : Option Toml} (h : ∀ u, old = some u → u.isTable = false) :
    old.bind (at? (k :: p)) = none := by
  rcases old with _ | u
  · rfl
  · exact at?_of_plain (h u rfl)

/-- Where the upper value binds a path, what it has there is laid over what the lower one has. -/
theorem at?_mergeValue (hw : w.IsSorted) (old : Option Toml) (h : w.at? p = some v) :
    (mergeValue old w).at? p = some (mergeValue (old.bind (at? p)) v) := by
  induction p generalizing old w with
  | nil =>
    obtain rfl := Option.some.inj h
    rw [at?_nil]
    cases old <;> rfl
  | cons k p ih =>
    rcases mergeValue_cases old w with ⟨t, u, rfl, rfl, hmerge⟩ | ⟨hplain, hmerge⟩
    · rw [at?_table] at h
      obtain ⟨w', hk, hv⟩ := Option.bind_eq_some_iff.1 h
      rw [hmerge, at?_table, lookup_merge hw.entriesSorted, hk]
      exact ih (hw.of_lookup hk) _ hv
    · have htable : w.isTable = true := by
        rw [← Bool.not_eq_false]
        intro hnot
        rw [at?_of_plain hnot] at h
        cases h
      rw [hmerge, h, bind_at?_of_plain (hplain htable), mergeValue_none]

/-- Where the upper value binds nothing, and nothing that is no table on the way, the lower one shows
through. -/
theorem at?_mergeValue_of_none (hw : w.IsSorted) (old : Option Toml) (h : w.at? p = none)
    (hopen : ∀ front rest v, p = front ++ rest → rest ≠ [] → w.at? front = some v →
      v.isTable = true) :
    (mergeValue old w).at? p = old.bind (at? p) := by
  induction p generalizing old w with
  | nil => cases h
  | cons k p ih =>
    have htable : w.isTable = true := hopen [] (k :: p) w rfl (List.cons_ne_nil _ _) rfl
    rcases mergeValue_cases old w with ⟨t, u, rfl, rfl, hmerge⟩ | ⟨hplain, hmerge⟩
    · rw [hmerge, at?_table, lookup_merge hw.entriesSorted]
      rw [at?_table] at h
      rcases hk : t.lookup k with _ | w'
      · rfl
      · rw [hk] at h
        refine ih (hw.of_lookup hk) _ h fun front rest v hp hrest hv => ?_
        refine hopen (k :: front) rest v (by rw [hp, List.cons_append]) hrest ?_
        rw [at?_table, hk]
        exact hv
    · rw [hmerge, h, bind_at?_of_plain (hplain htable)]

/-! ## Laying a value once more -/

theorem eq_of_lookup {u : Table} (ht : t.Pairwise (fun a b => a.1 < b.1))
    (hu : u.Pairwise (fun a b => a.1 < b.1)) (h : ∀ k, t.lookup k = u.lookup k) : t = u :=
  congrArg NameMap.entries (NameMap.ext_get? (m := ⟨t, ht⟩) (n := ⟨u, hu⟩) h)

/-- A table is laid over another one once more without effect if that is so of its values. -/
theorem merge_again_of (hbase : IsSorted (.table base)) (hupper : IsSorted (.table upper))
    (hvalues : ∀ e ∈ upper, ∀ old : Option Toml, (∀ u, old = some u → u.IsSorted) →
      mergeValue (some (mergeValue old e.2)) e.2 = mergeValue old e.2) :
    merge (merge base upper) upper = merge base upper := by
  have hsorted : (merge base upper).Pairwise (fun a b => a.1 < b.1) :=
    sorted_merge hbase.entriesSorted
  refine eq_of_lookup (sorted_merge hsorted) hsorted fun k => ?_
  rw [lookup_merge hupper.entriesSorted, lookup_merge hupper.entriesSorted]
  rcases hk : upper.lookup k with _ | v
  · rfl
  · have hmem : (k, v) ∈ upper :=
      NameMap.get?_eq_some_iff (m := ⟨upper, hupper.entriesSorted⟩).1 hk
    exact congrArg some (hvalues _ hmem _ fun u hu => hbase.of_lookup hu)

/-- Laying a value over another one once more changes nothing. -/
theorem mergeValue_again (hv : v.IsSorted) {old : Option Toml}
    (hold : ∀ u, old = some u → u.IsSorted) :
    mergeValue (some (mergeValue old v)) v = mergeValue old v := by
  induction hv generalizing old with
  | plain hplain => rw [mergeValue_of_plain _ hplain, mergeValue_of_plain _ hplain]
  | @table t sorted entries ih =>
    have hagain {u : Table} (hu : IsSorted (.table u)) : merge (merge u t) t = merge u t :=
      merge_again_of hu (.table sorted entries) fun e he old hold => ih e he hold
    rcases mergeValue_cases old (.table t) with ⟨_, u, ht, rfl, hmerge⟩ | ⟨-, hmerge⟩
    · obtain rfl := Toml.table.inj ht
      rw [hmerge, mergeValue, hagain (hold _ rfl)]
    · -- what is replaced is as an empty table would have been
      have hnil := hagain (.table .nil (by simp))
      rw [merge_nil sorted] at hnil
      rw [hmerge, mergeValue, hnil]

/-! ## Merged tables -/

/-- What a value that is laid over another one has at a path. -/
structure Overlaid (base upper merged : Toml) (p : List String) : Prop where
  /-- A value that is no table replaces what was there. -/
  value : ∀ v, upper.at? p = some v → v.isTable = false → merged.at? p = some v
  tables : ∀ t u, upper.at? p = some (.table t) → base.at? p = some (.table u) →
    merged.at? p = some (.table (merge u t))
  table : ∀ t, upper.at? p = some (.table t) → (∀ u, base.at? p ≠ some (.table u)) →
    merged.at? p = some (.table t)
  /-- Nothing is left below a value that is no table. -/
  covered : ∀ front rest v, p = front ++ rest → rest ≠ [] → upper.at? front = some v →
    v.isTable = false → merged.at? p = none
  kept : upper.at? p = none → (∀ front rest v, p = front ++ rest → rest ≠ [] →
    upper.at? front = some v → v.isTable = true) → merged.at? p = base.at? p

theorem overlaid_mergeValue (hw : w.IsSorted) (v : Toml) (p : List String) :
    Overlaid v w (mergeValue (some v) w) p where
  value x hx hplain := by rw [at?_mergeValue hw _ hx, mergeValue_of_plain _ hplain]
  tables t u ht hu := by
    rw [at?_mergeValue hw _ ht, Option.bind_some, hu, mergeValue]
  table t ht hnot := by
    rw [at?_mergeValue hw _ ht, Option.bind_some, mergeValue_table _ hnot]
  covered front rest x hp hrest hx hplain := by
    obtain ⟨k, rest, rfl⟩ := List.exists_cons_of_ne_nil hrest
    rw [hp, at?_append, at?_mergeValue hw _ hx, mergeValue_of_plain _ hplain]
    exact at?_of_plain hplain
  kept hnone hopen := at?_mergeValue_of_none hw _ hnone hopen

/-- **What merged tables bind.** Every path is settled by what the two tables bind there; a table over
no entries, or no entries over it, is as it was; and merging the same table in once more changes
nothing. -/
theorem merged_tables (hbase : IsSorted (.table base)) (hupper : IsSorted (.table upper)) :
    (∀ p, Overlaid (.table base) (.table upper) (.table (merge base upper)) p) ∧
      merge [] upper = upper ∧ merge base [] = base ∧
      merge (merge base upper) upper = merge base upper := by
  refine ⟨fun p => ?_, merge_nil hupper.entriesSorted, rfl, ?_⟩
  · have h := overlaid_mergeValue hupper (.table base) p
    rwa [mergeValue] at h
  · refine merge_again_of hbase hupper fun e he old hold => ?_
    have hlookup := NameMap.lookup_eq_some_of_mem hupper.entriesSorted (k := e.1) (v := e.2) he
    exact mergeValue_again (hupper.of_lookup hlookup) hold

/-- A table over a number, and a table over a table. -/
theorem merged_tables_nested :
    let base : Table := [("cache", .table [("size", .integer 4)]), ("depth", .integer 1)]
    let upper : Table := [("cache", .table [("dir", .string "c")]), ("depth", .table [])]
    IsSorted (.table base) ∧ IsSorted (.table upper) ∧
      (∀ p, Overlaid (.table base) (.table upper) (.table (merge base upper)) p) ∧
      merge [] upper = upper ∧ merge base [] = base ∧
      merge (merge base upper) upper = merge base upper := by
  have hbase : IsSorted (.table [("cache", .table [("size", .integer 4)]), ("depth", .integer 1)]) :=
    .table (by decide) (by
      simp only [List.mem_cons, List.not_mem_nil, or_false, forall_eq_or_imp, forall_eq]
      exact ⟨.table (by decide) (by simpa using .plain rfl), .plain rfl⟩)
  have hupper : IsSorted (.table [("cache", .table [("dir", .string "c")]), ("depth", .table [])]) :=
    .table (by decide) (by
      simp only [List.mem_cons, List.not_mem_nil, or_false, forall_eq_or_imp, forall_eq]
      exact ⟨.table (by decide) (by simpa using .plain rfl), .table .nil (by simp)⟩)
  exact ⟨hbase, hupper, merged_tables hbase hupper⟩

end CodeGraph.Toml
