import CodeGraph.NameMap

/-!
# Lookups in maps

A name has the value that stands with it among the entries (`NameMap.get?_eq_some_iff`), so maps that
give every name the same value are equal (`NameMap.ext_get?`). Binding or unbinding a name changes the
entries by one (`NameMap.perm_insert`, `NameMap.perm_erase`), and binding the entries of a map in turn
makes the map again (`NameMap.insertMany_entries`).
-/

namespace CodeGraph

namespace NameMap

variable {β : Type} {m : NameMap β} {k : String} {v : β}

theorem ext_get? {n : NameMap β} (h : ∀ k, m.get? k = n.get? k) : m = n := by
  have hmem : ∀ e, e ∈ m.entries ↔ e ∈ n.entries := by
    intro e
    rw [← get?_eq_some_iff (m := m), ← get?_eq_some_iff (m := n), h]
  have hnodup : ∀ m : NameMap β, m.entries.Nodup := by
    intro m
    refine m.sorted.imp ?_
    rintro a _ hlt rfl
    exact String.lt_irrefl _ hlt
  have hperm : m.entries.Perm n.entries :=
    (List.perm_ext_iff_of_nodup (hnodup m) (hnodup n)).2 hmem
  refine ext_entries (hperm.eq_of_pairwise ?_ m.sorted n.sorted)
  intro a b _ _ hab hba
  exact absurd (String.lt_trans hab hba) (String.lt_irrefl _)

theorem erase_eq_self (h : m.get? k = none) : m.erase k = m := by
  refine ext_get? fun k' => ?_
  rw [get?_erase]
  split
  · next hk => rw [hk, h]
  · rfl

theorem nodup_names (m : NameMap β) : (m.entries.map Prod.fst).Nodup := by
  rw [List.Nodup, List.pairwise_map]
  refine m.sorted.imp fun {a b} hlt heq => ?_
  rw [heq] at hlt
  exact String.lt_irrefl _ hlt

theorem perm_place {l : List (String × β)} (h : ∀ e ∈ l, e.1 ≠ k) :
    (place k v l).Perm ((k, v) :: l) := by
  induction l with
  | nil => exact List.Perm.refl _
  | cons e l ih =>
    obtain ⟨k', v'⟩ := e
    have hne : k ≠ k' := fun heq => h _ (List.mem_cons_self ..) heq.symm
    rw [place, if_neg hne]
    split
    · exact List.Perm.refl _
    · exact ((ih fun e he => h e (List.mem_cons_of_mem _ he)).cons _).trans (List.Perm.swap ..)

/-- A name that comes after all others is put behind them. -/
theorem place_append {l : List (String × β)} (h : ∀ e ∈ l, e.1 < k) :
    place k v l = l ++ [(k, v)] := by
  induction l with
  | nil => rfl
  | cons e l ih =>
    obtain ⟨he, hl⟩ := List.forall_mem_cons.1 h
    have hnot : ¬ k < e.1 := fun hlt => String.lt_irrefl _ (String.lt_trans hlt he)
    have hne : k ≠ e.1 := fun heq => String.lt_irrefl _ (heq ▸ he)
    obtain ⟨k', v'⟩ := e
    rw [place, if_neg hnot, if_neg hne, ih hl, List.cons_append]

theorem perm_insert (h : m.get? k = none) :
    (m.insert k v).entries.Perm ((k, v) :: m.entries) :=
  perm_place (get?_eq_none_iff.1 h)

theorem perm_erase (h : m.get? k = some v) :
    m.entries.Perm ((k, v) :: (m.erase k).entries) := by
  have hmem := get?_eq_some_iff.1 h
  obtain ⟨front, back, hsplit⟩ := List.append_of_mem hmem
  have hnodup := m.nodup_names
  rw [hsplit, List.map_append, List.map_cons] at hnodup
  have hfront : ∀ e ∈ front, e.1 ≠ k := fun e he heq =>
    (List.nodup_append.1 hnodup).2.2 e.1 (List.mem_map_of_mem he) k (List.mem_cons_self ..) heq
  have hback : ∀ e ∈ back, e.1 ≠ k := fun e he heq =>
    (List.nodup_cons.1 (List.nodup_append.1 hnodup).2.1).1 (by
      have hname := List.mem_map_of_mem (f := Prod.fst) he
      rwa [heq] at hname)
  have herase : (m.erase k).entries = front ++ back := by
    change m.entries.filter (fun e => e.1 != k) = _
    rw [hsplit, List.filter_append, List.filter_cons, if_neg (by simp),
      List.filter_eq_self.2 (by simpa using hfront), List.filter_eq_self.2 (by simpa using hback)]
  rw [herase, hsplit]
  exact List.perm_middle

/-- Two names are bound in either order. -/
theorem insert_comm (m : NameMap β) {k k' : String} (hne : k ≠ k') (v w : β) :
    (m.insert k v).insert k' w = (m.insert k' w).insert k v := by
  refine ext_get? fun key => ?_
  simp only [get?_insert]
  by_cases hk : key = k
  · have hk' : key ≠ k' := fun heq => hne (hk.symm.trans heq)
    rw [if_neg hk', if_pos hk, if_pos hk]
  · rw [if_neg hk, if_neg hk]

/-! ## Binding many names -/

theorem mem_entries_insert {e : String × β} (h : e ∈ (m.insert k v).entries) :
    e = (k, v) ∨ e ∈ m.entries := by
  obtain ⟨k', v'⟩ := e
  rw [← get?_eq_some_iff, get?_insert] at h
  split at h
  · next hk =>
    cases h
    exact .inl (by rw [hk])
  · exact .inr (get?_eq_some_iff.1 h)

theorem get?_insertMany (m : NameMap β) {l : List (String × β)}
    (hl : l.Pairwise (fun a b => a.1 < b.1)) (k : String) :
    (m.insertMany l).get? k = (l.lookup k).or (m.get? k) := by
  induction l generalizing m with
  | nil => rfl
  | cons e l ih =>
    obtain ⟨hlt, hl'⟩ := List.pairwise_cons.1 hl
    change ((m.insert e.1 e.2).insertMany l).get? k = _
    rw [ih _ hl', get?_insert, List.lookup_cons]
    by_cases hk : k = e.1
    · subst hk
      have hnone : l.lookup e.1 = none := by
        rw [List.lookup_eq_none_iff]
        intro f hf
        have hne : e.1 ≠ f.1 := fun heq => String.lt_irrefl e.1 (by
          have := hlt f hf
          rwa [← heq] at this)
        simpa using hne
      simp [hnone]
    · have hbeq : (k == e.1) = false := by simpa using hk
      simp [hbeq, hk]

/-- Of several values of a name the last one stays. -/
theorem get?_insertMany_reverse (m : NameMap β) (l : List (String × β)) (k : String) :
    (m.insertMany l).get? k = (l.reverse.lookup k).or (m.get? k) := by
  induction l generalizing m with
  | nil => rfl
  | cons e l ih =>
    obtain ⟨k', v⟩ := e
    change ((m.insert k' v).insertMany l).get? k = _
    rw [ih, get?_insert, List.reverse_cons, List.lookup_append]
    rcases l.reverse.lookup k with _ | u
    · by_cases hk : k = k'
      · simp [hk]
      · have hbeq : (k == k') = false := by simpa using hk
        simp [List.lookup_cons, hk, hbeq]
    · rfl

/-- Names that are new and differ are bound beside the entries that are there. -/
theorem perm_insertMany {l : List (String × β)} (hl : (l.map Prod.fst).Nodup)
    (hnew : ∀ e ∈ l, m.get? e.1 = none) : (m.insertMany l).entries.Perm (l ++ m.entries) := by
  induction l generalizing m with
  | nil => exact .refl _
  | cons e l ih =>
    obtain ⟨he, hl⟩ := List.nodup_cons.1 hl
    obtain ⟨hfirst, hnew⟩ := List.forall_mem_cons.1 hnew
    have hrest := ih (m := m.insert e.1 e.2) hl fun f hf => by
      have hne : f.1 ≠ e.1 := fun heq => he (heq ▸ List.mem_map_of_mem hf)
      rw [get?_insert_of_ne _ _ hne]
      exact hnew f hf
    exact hrest.trans (((perm_insert hfirst).append_left l).trans List.perm_middle)

/-- A map is what its entries make. -/
theorem insertMany_entries (m : NameMap β) : empty.insertMany m.entries = m := by
  refine ext_get? fun k => ?_
  rw [get?_insertMany _ m.sorted, get?_empty, Option.or_none]
  rfl

/-- The entries of a map may be searched from either end. -/
theorem lookup_reverse_entries (m : NameMap β) (k : String) :
    m.entries.reverse.lookup k = m.get? k := by
  have hget := get?_insertMany_reverse .empty m.entries k
  rw [insertMany_entries, get?_empty, Option.or_none] at hget
  exact hget.symm

theorem mem_entries_insertMany {l : List (String × β)} {e : String × β}
    (h : e ∈ (m.insertMany l).entries) : e ∈ l ∨ e ∈ m.entries := by
  induction l generalizing m with
  | nil => exact .inr h
  | cons f l ih =>
    rcases ih (m := m.insert f.1 f.2) h with h | h
    · exact .inl (List.mem_cons_of_mem _ h)
    · rcases mem_entries_insert h with rfl | h
      · exact .inl List.mem_cons_self
      · exact .inr h

/-! ## Names -/

theorem pairwise_names (m : NameMap β) : m.names.Pairwise (· < ·) :=
  List.pairwise_map.2 m.sorted

theorem mem_names_iff : k ∈ m.names ↔ (m.get? k).isSome := by
  rw [Option.isSome_iff_exists]
  simp only [get?_eq_some_iff, names, List.mem_map, Prod.exists, exists_and_right, exists_eq_right]

theorem mem_names_insert (k' : String) : k' ∈ (m.insert k v).names ↔ k' = k ∨ k' ∈ m.names := by
  rw [mem_names_iff, mem_names_iff, get?_insert]
  by_cases hk : k' = k <;> simp [hk]

theorem mem_names_insertMany {l : List (String × β)} :
    k ∈ (m.insertMany l).names ↔ k ∈ m.names ∨ k ∈ l.map Prod.fst := by
  induction l generalizing m with
  | nil => simp [insertMany]
  | cons e l ih =>
    change k ∈ ((m.insert e.1 e.2).insertMany l).names ↔ _
    rw [ih, mem_names_insert, List.map_cons, List.mem_cons, or_assoc, or_left_comm]

end NameMap

/-- A set has the names of the list that it is made of. -/
theorem NameSet.mem_names_ofNames {l : List String} {k : String} :
    k ∈ (ofNames l).names ↔ k ∈ l := by
  have hadd : ∀ (l : List String) (s : NameSet), k ∈ (l.foldl add s).names ↔ k ∈ s.names ∨ k ∈ l := by
    intro l
    induction l with
    | nil => simp
    | cons name l ih =>
      intro s
      rw [List.foldl_cons, ih, add, NameMap.mem_names_insert, List.mem_cons, or_assoc, or_left_comm]
  exact (hadd l .empty).trans (or_iff_right List.not_mem_nil)

end CodeGraph
