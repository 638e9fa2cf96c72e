import CodeGraph.Proofs.NameMap
import CodeGraph.Toml.Basic

/-!
# Layers of tables

A path leads into a value step by step (`Toml.find?`). What the layering of two values binds at a
path is told by what each of them binds there (`Toml.bound?`): the inner layer goes first, and only
where both have a table the outer one counts besides it (`find?_mergeValue`). The entries of an inner
layer have different names, since it holds them in their order (`Toml.IsWhole`); layering keeps that
(`IsWhole.mergeValue`), and a layer over no entries is as it was (`merge_nil`).
-/

namespace CodeGraph.Toml

/-! ## Paths -/

/-- A step into a value: the name of an entry, and for a field its position too, since a record may
be given as an array. -/
structure Step where
  name : String
  position : Option Nat := none
  deriving DecidableEq, Repr

/-- What a value has at a step. -/
def field? (s : Step) : Toml → Option Toml
  | .table t => t.lookup s.name
  | .array items => s.position.bind (items[·]?)
  | _ => none

/-- What a path leads to. -/
def find? : List Step → Toml → Option Toml
  | [], v => some v
  | s :: path, v => (field? s v).bind (find? path)

/-- What two layers bind at a path. Two tables are taken together, entry by entry; anything else is
taken whole from the inner layer, or from the outer one if the inner one binds nothing. -/
def bound? : List Step → Option Toml → Option Toml → Option Toml
  | [], some inner, outer => some (mergeValue outer inner)
  | s :: path, some (.table inner), some (.table outer) =>
    bound? path (inner.lookup s.name) (outer.lookup s.name)
  | s :: path, some inner, _ => inner.find? (s :: path)
  | path, none, outer => outer.bind (find? path)

variable {path : List Step} {s : Step} {base upper : Table} {k : String} {v : Toml}

@[simp] theorem find?_nil (v : Toml) : v.find? [] = some v := rfl

@[simp] theorem find?_cons (v : Toml) : v.find? (s :: path) = (v.field? s).bind (find? path) := rfl

@[simp] theorem field?_table (t : Table) : (Toml.table t).field? s = t.lookup s.name := rfl

@[simp] theorem bound?_none (path : List Step) (outer : Option Toml) :
    bound? path none outer = outer.bind (find? path) := by
  cases path <;> rfl

theorem find?_append (v : Toml) (path rest : List Step) :
    v.find? (path ++ rest) = (v.find? path).bind (find? rest) := by
  induction path generalizing v with
  | nil => rfl
  | cons s path ih =>
    rw [List.cons_append, find?_cons, find?_cons, Option.bind_assoc]
    exact Option.bind_congr fun w _ => ih w

/-! ## Values with entries in their order -/

/-- The entries of tables are in increasing order of name, and no table stands for a moment. -/
inductive IsWhole : Toml → Prop
  | string (s : String) : IsWhole (.string s)
  | integer (i : Int64) : IsWhole (.integer i)
  | double (x : Float) : IsWhole (.double x)
  | bool (b : Bool) : IsWhole (.bool b)
  | moment (m : Moment) : IsWhole (.moment m)
  | array {items : List Toml} (whole : ∀ v ∈ items, IsWhole v) : IsWhole (.array items)
  | table {t : Table} (sorted : t.Pairwise (fun a b => a.1 < b.1))
      (plain : t.map Prod.fst ≠ [momentName]) (whole : ∀ e ∈ t, IsWhole e.2) : IsWhole (.table t)

/-- The entries of a file. -/
structure IsWholeTable (t : Table) : Prop where
  sorted : t.Pairwise (fun a b => a.1 < b.1)
  whole : ∀ e ∈ t, IsWhole e.2

theorem isWholeTable_nil : IsWholeTable [] :=
  ⟨.nil, by simp⟩

theorem IsWholeTable.of_cons {e : String × Toml} {t : Table} (h : IsWholeTable (e :: t)) :
    e.2.IsWhole ∧ IsWholeTable t ∧ ∀ b ∈ t, e.1 < b.1 := by
  obtain ⟨hlt, hsorted⟩ := List.pairwise_cons.1 h.sorted
  obtain ⟨he, hwhole⟩ := List.forall_mem_cons.1 h.whole
  exact ⟨he, ⟨hsorted, hwhole⟩, hlt⟩

theorem IsWhole.entries {t : Table} (h : IsWhole (.table t)) : IsWholeTable t := by
  cases h with
  | table sorted _ whole => exact ⟨sorted, whole⟩

theorem IsWholeTable.isWhole_of_lookup {t : Table} (h : IsWholeTable t) (hk : t.lookup k = some v) :
    v.IsWhole :=
  h.whole (k, v) (NameMap.get?_eq_some_iff (m := ⟨t, h.sorted⟩).1 hk)

theorem lookup_eq_none {t : Table} (h : ∀ e ∈ t, e.1 ≠ k) : t.lookup k = none := by
  rw [List.lookup_eq_none_iff]
  intro e he
  rw [bne_iff_ne]
  exact (h e he).symm

/-! ## Merged tables -/

/-- What a merged table binds. -/
theorem lookup_merge (h : upper.Pairwise (fun a b => a.1 < b.1)) (base : Table) (k : String) :
    (merge base upper).lookup k =
      match upper.lookup k with
      | some v => some (mergeValue (base.lookup k) v)
      | none => base.lookup k := by
  induction upper generalizing base with
  | nil => rfl
  | cons e upper ih =>
    obtain ⟨k', v⟩ := e
    obtain ⟨hlt, hupper⟩ := List.pairwise_cons.1 h
    rw [merge, ih hupper, List.lookup_cons]
    by_cases hk : k = k'
    · subst hk
      rw [lookup_eq_none fun b hb => (String.ne_of_lt (hlt b hb)).symm, beq_self_eq_true]
      exact NameMap.lookup_place_self ..
    · rw [beq_eq_false_iff_ne.2 hk, NameMap.lookup_place_of_ne _ hk]

theorem mergeValue_table (old : Option Toml) (h : ∀ t, old ≠ some (.table t)) :
    mergeValue old (.table upper) = .table upper := by
  rw [mergeValue]
  exact h

/-- **A path into layered values** leads to what the layers bind there. -/
theorem find?_mergeValue {outer : Option Toml} {inner : Toml} (h : inner.IsWhole) :
    (mergeValue outer inner).find? path = bound? path (some inner) outer := by
  induction path generalizing outer inner with
  | nil => rfl
  | cons s path ih =>
    by_cases htables : ∃ t u, inner = .table t ∧ outer = some (.table u)
    · obtain ⟨t, u, rfl, rfl⟩ := htables
      rw [mergeValue, find?_cons, field?_table, lookup_merge h.entries.sorted, bound?]
      rcases hinner : t.lookup s.name with _ | v
      · simp
      · exact ih (h.entries.isWhole_of_lookup hinner)
    · have hsame : mergeValue outer inner = inner := by
        cases inner with
        | table t => exact mergeValue_table _ fun u hu => htables ⟨t, u, rfl, hu⟩
        | _ => rfl
      rw [hsame, bound?]
      intro t u houter hinner
      exact htables ⟨t, u, hinner, houter⟩

/-- A path into merged tables leads to what the tables bind there. -/
theorem find?_merge (h : IsWholeTable upper) (base : Table) (path : List Step) :
    (Toml.table (merge base upper)).find? (s :: path) =
      bound? (s :: path) (some (.table upper)) (some (.table base)) := by
  rw [find?_cons, field?_table, lookup_merge h.sorted, bound?]
  rcases hinner : upper.lookup s.name with _ | v
  · simp
  · exact find?_mergeValue (h.isWhole_of_lookup hinner)

/-- A value that is laid over nothing stays as it is. -/
theorem mergeValue_none (v : Toml) : mergeValue none v = v := by
  cases v with
  | table t => exact mergeValue_table _ (by simp)
  | _ => rfl

/-- Without an outer layer the inner one counts. -/
theorem bound?_without (path : List Step) (inner : Option Toml) :
    bound? path inner none = inner.bind (find? path) := by
  rcases inner with _ | v
  · exact bound?_none path none
  · cases path with
    | nil => exact congrArg some (mergeValue_none v)
    | cons s path => cases v <;> rfl

/-- A missing layer binds what an empty one does. -/
theorem bound?_getD (s : Step) (path : List Step) (inner outer : Option Table) :
    bound? (s :: path) (some (.table (inner.getD []))) (some (.table (outer.getD []))) =
      bound? (s :: path) (inner.map .table) (outer.map .table) := by
  rcases inner with _ | inner <;> rcases outer with _ | outer
  · exact bound?_none path none
  · exact bound?_none path (outer.lookup s.name)
  · exact bound?_without path (inner.lookup s.name)
  · rfl

/-! ## Merging keeps the order -/

/-- Entries that come after those of a table are put behind them. -/
theorem merge_append (h : upper.Pairwise (fun a b => a.1 < b.1))
    (hbefore : ∀ a ∈ base, ∀ b ∈ upper, a.1 < b.1) : merge base upper = base ++ upper := by
  induction upper generalizing base with
  | nil => simp [merge]
  | cons e upper ih =>
    obtain ⟨k, v⟩ := e
    obtain ⟨hlt, hupper⟩ := List.pairwise_cons.1 h
    have hk : ∀ a ∈ base, a.1 < k := fun a ha => hbefore a ha _ List.mem_cons_self
    have hnone : base.lookup k = none := lookup_eq_none fun a ha => String.ne_of_lt (hk a ha)
    rw [merge, hnone, mergeValue_none, NameMap.place_append hk, ih hupper, List.append_assoc]
    · rfl
    · intro a ha b hb
      rcases List.mem_append.1 ha with ha | ha
      · exact hbefore a ha b (List.mem_cons_of_mem _ hb)
      · rw [List.mem_singleton.1 ha]
        exact hlt b hb

theorem sorted_merge {base upper : Table} (h : base.Pairwise (fun a b => a.1 < b.1)) :
    (merge base upper).Pairwise (fun a b => a.1 < b.1) := by
  induction upper generalizing base with
  | nil => exact h
  | cons e upper ih =>
    obtain ⟨k, v⟩ := e
    rw [merge]
    exact ih (NameMap.pairwise_place _ _ h)

/-- A table that binds one name at most is empty, or its only name is that one. -/
theorem names_of_forall {t : Table} (h : t.Pairwise (fun a b => a.1 < b.1))
    (hone : ∀ e ∈ t, e.1 = k) : t = [] ∨ t.map Prod.fst = [k] := by
  match t with
  | [] => exact .inl rfl
  | [e] => exact .inr (by rw [List.map_singleton, hone e List.mem_cons_self])
  | e :: e' :: rest =>
    have hlt := (List.pairwise_cons.1 h).1 e' List.mem_cons_self
    rw [hone e List.mem_cons_self, hone e' (by simp)] at hlt
    exact absurd hlt (String.lt_irrefl _)

/-- What is bound in one of two tables is bound in the merged one. -/
theorem exists_mem_merge (hbase : IsWholeTable base) (hupper : IsWholeTable upper)
    {e : String × Toml} (he : e ∈ base ∨ e ∈ upper) : ∃ e' ∈ merge base upper, e'.1 = e.1 := by
  have hsome : ∃ v, (merge base upper).lookup e.1 = some v := by
    rw [lookup_merge hupper.sorted]
    rcases hlookup : upper.lookup e.1 with _ | v
    · rcases he with he | he
      · exact ⟨e.2, NameMap.lookup_eq_some_of_mem hbase.sorted he⟩
      · cases (NameMap.lookup_eq_some_of_mem hupper.sorted he).symm.trans hlookup
    · exact ⟨_, rfl⟩
  obtain ⟨v, hv⟩ := hsome
  exact ⟨(e.1, v),
    NameMap.mem_entries_of_get? (m := ⟨_, sorted_merge hbase.sorted⟩) hv, rfl⟩

theorem names_merge_ne (hbase : IsWholeTable base) (hupper : IsWholeTable upper)
    (hk : base.map Prod.fst ≠ [k]) (hk' : upper.map Prod.fst ≠ [k]) :
    (merge base upper).map Prod.fst ≠ [k] := by
  intro hnames
  have hone : ∀ e, e ∈ base ∨ e ∈ upper → e.1 = k := by
    intro e he
    obtain ⟨e', he', hname⟩ := exists_mem_merge hbase hupper he
    have hmem := List.mem_map_of_mem (f := Prod.fst) he'
    rw [hnames, List.mem_singleton] at hmem
    rw [← hname, hmem]
  have hnil := (names_of_forall hbase.sorted fun e he => hone e (.inl he)).resolve_right hk
  have hnil' := (names_of_forall hupper.sorted fun e he => hone e (.inr he)).resolve_right hk'
  rw [hnil, hnil'] at hnames
  cases hnames

/-- Merged tables are whole if the values that come of it are. -/
theorem IsWholeTable.merge_of (hbase : IsWholeTable base) (hupper : IsWholeTable upper)
    (hvalues : ∀ e ∈ upper, ∀ old : Option Toml, (∀ u, old = some u → u.IsWhole) →
      (mergeValue old e.2).IsWhole) : IsWholeTable (merge base upper) := by
  refine ⟨sorted_merge hbase.sorted, ?_⟩
  intro e he
  have hlookup := NameMap.lookup_eq_some_of_mem (sorted_merge hbase.sorted) (k := e.1) (v := e.2) he
  rw [lookup_merge hupper.sorted] at hlookup
  rcases hinner : upper.lookup e.1 with _ | v
  · rw [hinner] at hlookup
    exact hbase.isWhole_of_lookup hlookup
  · rw [hinner] at hlookup
    rw [← Option.some.inj hlookup]
    exact hvalues (e.1, v) (NameMap.mem_entries_of_get? (m := ⟨_, hupper.sorted⟩) hinner) _
      fun u hu => hbase.isWhole_of_lookup hu

/-- A value laid over another one has its entries in their order. -/
theorem IsWhole.mergeValue {outer : Option Toml} {inner : Toml} (h : inner.IsWhole)
    (houter : ∀ u, outer = some u → u.IsWhole) : (mergeValue outer inner).IsWhole := by
  induction h generalizing outer with
  | string s => exact .string s
  | integer i => exact .integer i
  | double x => exact .double x
  | bool b => exact .bool b
  | moment m => exact .moment m
  | array whole => exact .array whole
  | @table upper sorted plain whole ih =>
    by_cases htable : ∃ base, outer = some (.table base)
    · obtain ⟨base, rfl⟩ := htable
      rw [Toml.mergeValue]
      have hupper : IsWholeTable upper := ⟨sorted, whole⟩
      cases houter _ rfl with
      | table sorted' plain' whole' =>
        have hmerged := IsWholeTable.merge_of ⟨sorted', whole'⟩ hupper fun e he old => ih e he
        exact .table hmerged.sorted (names_merge_ne ⟨sorted', whole'⟩ hupper plain' plain)
          hmerged.whole
    · rw [mergeValue_table _ fun base hbase => htable ⟨base, hbase⟩]
      exact .table sorted plain whole

theorem IsWholeTable.merge (hbase : IsWholeTable base) (hupper : IsWholeTable upper) :
    IsWholeTable (merge base upper) :=
  hbase.merge_of hupper fun e he _ hold => (hupper.whole e he).mergeValue hold

/-- A layer over no entries is as it was. -/
theorem merge_nil (h : upper.Pairwise (fun a b => a.1 < b.1)) : merge [] upper = upper :=
  merge_append h (by simp)

end CodeGraph.Toml
