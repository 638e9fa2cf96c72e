import CodeGraph.Volume.Basic

/-!
# What is at a path after a change

A change of one item leaves what is at every other path (`item?_put`), and taking a path away takes
what is below it and nothing else (`item?_remove`). A directory lists the names of its items
(`mem_children`), and goes on listing each of them once (`nodup_children_put`,
`nodup_children_remove`).
-/

namespace CodeGraph.Volume

theorem item?_nil (v : Volume) : v.item? [] = some .directory := if_pos rfl

theorem item?_of_ne_nil (v : Volume) {p : List String} (hp : p ≠ []) :
    v.item? p = v.entries.lookup p := if_neg hp

theorem lookup_replace (p q : List String) (i : Item) (l : List (List String × Item)) :
    (l.map fun e => if e.1 == p then (p, i) else e).lookup q =
      if q = p ∧ l.any (·.1 == p) then some i else l.lookup q := by
  induction l with
  | nil => simp
  | cons e l ih =>
    obtain ⟨r, j⟩ := e
    by_cases hr : r = p
    · subst hr
      by_cases hq : q = r
      · subst hq
        simp
      · have hbeq : (q == r) = false := by simpa using hq
        simp only [List.map_cons, BEq.rfl, if_true, List.lookup_cons, hbeq, ih, hq, false_and,
          if_false]
    · have hbeq : (r == p) = false := by simpa using hr
      simp only [List.map_cons, hbeq, Bool.false_eq_true, if_false, List.lookup_cons, ih,
        List.any_cons, Bool.false_or]
      by_cases hq : q = r
      · subst hq
        simp [hr]
      · have hqr : (q == r) = false := by simpa using hq
        simp [hqr]

theorem lookup_eq_none_of_not_any {p : List String} {l : List (List String × Item)}
    (h : l.any (·.1 == p) = false) : l.lookup p = none := by
  induction l with
  | nil => rfl
  | cons e l ih =>
    rw [List.any_cons, Bool.or_eq_false_iff] at h
    have hbeq : (p == e.1) = false := by
      have := h.1
      simp only [beq_eq_false_iff_ne, ne_eq] at this ⊢
      exact fun heq => this heq.symm
    rw [List.lookup_cons, hbeq]
    exact ih h.2

/-- Only what is at the changed path is different. -/
theorem item?_put (v : Volume) {p : List String} (hp : p ≠ []) (i : Item) (q : List String) :
    (v.put p i).item? q = if q = p then some i else v.item? q := by
  by_cases hq : q = []
  · subst hq
    rw [item?_nil, item?_nil, if_neg (Ne.symm hp)]
  rw [item?_of_ne_nil _ hq, item?_of_ne_nil _ hq, put]
  split
  · next hany =>
    rw [lookup_replace]
    simp [hany]
  · next hany =>
    have hnone := lookup_eq_none_of_not_any (Bool.not_eq_true _ ▸ hany)
    simp only [List.lookup_append]
    by_cases hqp : q = p
    · subst hqp
      simp [hnone]
    · have hbeq : (q == p) = false := by simpa using hqp
      simp [List.lookup_cons, hbeq, hqp]

theorem lookup_filter (f : List String → Bool) (q : List String)
    (l : List (List String × Item)) :
    (l.filter fun e => f e.1).lookup q = if f q then l.lookup q else none := by
  induction l with
  | nil => simp
  | cons e l ih =>
    obtain ⟨r, j⟩ := e
    by_cases hq : q = r
    · subst hq
      by_cases hf : f q <;> simp [hf, ih]
    · have hbeq : (q == r) = false := by simpa using hq
      by_cases hf : f r <;> simp [hf, List.lookup_cons, hbeq, ih]

/-- Only what is at the path and below it is gone. -/
theorem item?_remove (v : Volume) (p q : List String) :
    (v.remove p).item? q = if q ≠ [] ∧ p.isPrefixOf q then none else v.item? q := by
  by_cases hq : q = []
  · subst hq
    simp [item?_nil]
  rw [item?_of_ne_nil _ hq, item?_of_ne_nil _ hq, remove]
  simp only [lookup_filter fun r => !p.isPrefixOf r]
  by_cases hbelow : p.isPrefixOf q <;> simp [hbelow, hq]

theorem item?_of_remove {v : Volume} {p q : List String} {i : Item}
    (h : (v.remove p).item? q = some i) : v.item? q = some i := by
  rw [item?_remove] at h
  split at h
  · cases h
  · exact h

@[simp] theorem current_put (v : Volume) (p : List String) (i : Item) :
    (v.put p i).current = v.current := by
  unfold put
  split <;> rfl

@[simp] theorem current_remove (v : Volume) (p : List String) :
    (v.remove p).current = v.current := rfl

/-- Of two items that are put at one path the later one stays. -/
theorem put_put (v : Volume) (p : List String) (i j : Item) : (v.put p i).put p j = v.put p j := by
  have hreplace : ∀ e : List String × Item, (if (if e.1 == p then (p, i) else e).1 == p then (p, j)
      else if e.1 == p then (p, i) else e) = if e.1 == p then (p, j) else e := by
    intro e
    by_cases he : e.1 = p <;> simp [he]
  by_cases hany : v.entries.any fun e => e.1 == p
  · have hput : ∀ i, v.put p i =
        { v with entries := v.entries.map fun e => if e.1 == p then (p, i) else e } :=
      fun i => if_pos hany
    have hany' : (v.entries.map fun e => if e.1 == p then (p, i) else e).any (·.1 == p) := by
      obtain ⟨e, he, hp⟩ := List.any_eq_true.1 hany
      exact List.any_eq_true.2 ⟨(p, i), List.mem_map.2 ⟨e, he, if_pos hp⟩, by simp⟩
    rw [hput i, hput j, put, if_pos hany', List.map_map]
    exact congrArg (fun l => (⟨l, v.current⟩ : Volume)) (List.map_congr_left fun e _ => hreplace e)
  · have hput : ∀ i, v.put p i = { v with entries := v.entries ++ [(p, i)] } := fun i => if_neg hany
    have hkept : (v.entries.map fun e => if e.1 == p then (p, j) else e) = v.entries := by
      refine (List.map_congr_left fun e he => if_neg fun hp => hany ?_).trans (List.map_id _)
      exact List.any_eq_true.2 ⟨e, he, hp⟩
    rw [hput i, hput j, put, if_pos (by simp), List.map_append, hkept]
    simp

theorem lookup_isSome_iff {p : List String} {l : List (List String × Item)} :
    (l.lookup p).isSome ↔ ∃ i, (p, i) ∈ l := by
  induction l with
  | nil => simp
  | cons e l ih =>
    obtain ⟨r, j⟩ := e
    by_cases hp : p = r
    · subst hp
      simp
    · have hbeq : (p == r) = false := by simpa using hp
      simp [List.lookup_cons, hbeq, ih, hp]

theorem mem_entries_of_item? {v : Volume} {p : List String} {i : Item} (hp : p ≠ [])
    (hi : v.item? p = some i) : (p, i) ∈ v.entries := by
  rw [item?_of_ne_nil v hp] at hi
  obtain ⟨l, l', hl, -⟩ := List.lookup_eq_some_iff.1 hi
  simp [hl]

theorem mem_children {v : Volume} {p : List String} {n : String} :
    n ∈ v.children p ↔ (v.item? (p ++ [n])).isSome := by
  rw [item?_of_ne_nil _ (by simp), lookup_isSome_iff, children, List.mem_filterMap]
  constructor
  · rintro ⟨⟨r, i⟩, hmem, h⟩
    split at h
    · next m hlast =>
      simp only [Option.ite_none_right_eq_some, beq_iff_eq, Option.some.injEq] at h
      obtain ⟨hdrop, rfl⟩ := h
      obtain ⟨front, rfl⟩ := List.getLast?_eq_some_iff.1 hlast
      have hr : front ++ [m] = p ++ [m] := by simpa using hdrop
      exact ⟨i, hr ▸ hmem⟩
    · cases h
  · rintro ⟨i, hmem⟩
    exact ⟨(p ++ [n], i), hmem, by simp⟩

/-! ## Listing each name once -/

theorem nodup_children_remove {v : Volume} (p : List String) {q : List String}
    (h : (v.children q).Nodup) : ((v.remove p).children q).Nodup :=
  h.sublist (List.filter_sublist.filterMap _)

/-- Replacing an item keeps the listing of every directory. -/
theorem children_replace (v : Volume) (p q : List String) (i : Item) :
    ({ v with entries := v.entries.map fun e => if e.1 == p then (p, i) else e } :
      Volume).children q = v.children q := by
  rw [children, children, List.filterMap_map]
  congr 1
  funext e
  by_cases he : e.1 = p
  · simp [he]
  · simp [he]

theorem children_append (v : Volume) (p q : List String) (i : Item) :
    ({ v with entries := v.entries ++ [(p, i)] } : Volume).children q = v.children q ∨
      ∃ n, p = q ++ [n] ∧
        ({ v with entries := v.entries ++ [(p, i)] } : Volume).children q = v.children q ++ [n] := by
  rcases List.eq_nil_or_concat p with rfl | ⟨front, n, rfl⟩
  · left
    simp [children]
  · rw [List.concat_eq_append]
    by_cases hdir : front = q
    · right
      subst hdir
      exact ⟨n, rfl, by simp [children]⟩
    · left
      simp [children, hdir]

/-- An item under a new name is listed last. -/
theorem children_put (v : Volume) {p : List String} (hp : p ≠ []) (q : List String) (i : Item) :
    (v.put p i).children q = v.children q ∨
      ∃ n, p = q ++ [n] ∧ v.item? p = none ∧ (v.put p i).children q = v.children q ++ [n] := by
  by_cases hany : v.entries.any fun e => e.1 == p
  · rw [put, if_pos hany, children_replace]
    exact .inl rfl
  · rw [put, if_neg hany]
    refine (children_append v p q i).imp_right fun ⟨n, hp', hadded⟩ => ⟨n, hp', ?_, hadded⟩
    rw [item?_of_ne_nil _ hp]
    exact lookup_eq_none_of_not_any (Bool.not_eq_true _ ▸ hany)

theorem nodup_children_put {v : Volume} {p q : List String} (hp : p ≠ []) (i : Item)
    (h : (v.children q).Nodup) : ((v.put p i).children q).Nodup := by
  rcases children_put v hp q i with hsame | ⟨n, rfl, hnone, hadded⟩
  · rw [hsame]
    exact h
  · have hnew : n ∉ v.children q := by
      rw [mem_children, hnone]
      exact Bool.false_ne_true
    rw [hadded]
    have hcons : (n :: v.children q).Nodup := List.nodup_cons.2 ⟨hnew, h⟩
    exact (List.perm_append_singleton n (v.children q)).nodup_iff.2 hcons

end CodeGraph.Volume
