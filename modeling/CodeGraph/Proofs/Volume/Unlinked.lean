import CodeGraph.Proofs.Volume.Standing

/-!
# Trees without links

A tree stays one when files are written and directories are made (`IsTree.put`, `IsTree.makeDirs`).

In a tree that has no links, and whose names lead one step down wherever they stand in a path, what is
found is in a directory (`Unlinked.of_resolve`). Files that are taken away, written or moved and
directories that are made leave a tree of this kind (`Unlinked.remove`, `Unlinked.put`,
`Unlinked.makeDirs`), and every path leads to the directory to which it has led
(`Unlinked.leadsTo_remove`, `Unlinked.leadsTo_put`).
-/

namespace CodeGraph.Volume

open CodeGraph.Path (IsPlain)

variable {v w : Volume} {p : String} {q r front : List String} {n : String} {i : Item}
  {follow : Bool}

theorem IsTree.above (h : v.IsTree) {back : List String} (hback : back ≠ [])
    (hi : (v.item? (r ++ back)).isSome) : v.item? r = some .directory := by
  induction back generalizing r with
  | nil => exact absurd rfl hback
  | cons m back ih =>
    rcases back with _ | ⟨m', back⟩
    · exact h.parent r m hi
    · have hnext : v.item? (r ++ [m]) = some .directory :=
        ih (List.cons_ne_nil _ _) (by rwa [List.append_assoc])
      exact h.parent r m (by simp [hnext])

/-- Nothing is in what is no directory. -/
theorem IsTree.item?_behind (h : v.IsTree) (hq : v.item? q ≠ some .directory) (n : String) :
    v.item? (q ++ [n]) = none :=
  Option.not_isSome_iff_eq_none.1 fun hsome => hq (h.parent q n hsome)

theorem IsTree.of_entries (hcurrent : v.item? v.current = some .directory)
    (hentries : ∀ e ∈ v.entries, ∃ front n, e.1 = front ++ [n] ∧ v.item? front = some .directory) :
    v.IsTree := by
  refine ⟨hcurrent, fun q n hi => ?_⟩
  obtain ⟨i, hi⟩ := Option.isSome_iff_exists.1 hi
  obtain ⟨front, m, heq, hfront⟩ := hentries _ (mem_entries_of_item? (by simp) hi)
  rw [(List.append_inj' heq rfl).1]
  exact hfront

theorem IsTree.standing (h : v.IsTree) (hi : v.item? q = some i) : v.Standing q i := by
  refine ⟨hi, ?_⟩
  rintro r ⟨back, rfl⟩ hne
  have hback : back ≠ [] := by
    rintro rfl
    exact hne (List.append_nil r).symm
  exact h.above hback (by rw [hi]; rfl)

section Directory

variable (h : v.IsTree) (hr : v.item? r ≠ some .directory) (hq : v.item? q = some .directory)

include h hr hq

theorem IsTree.directory_remove : (v.remove r).item? q = some .directory := by
  refine ((h.standing hq).remove hr ?_).item
  rintro rfl
  exact hr hq

theorem IsTree.directory_put (i : Item) : (v.put r i).item? q = some .directory := by
  refine ((h.standing hq).put hr ?_ i).item
  rintro rfl
  exact hr hq

end Directory

theorem IsTree.exists_of_walk_missing (hv : v.IsTree) {hops : Nat} {here names r : List String}
    (hhere : v.item? here = some .directory) (h : v.walk follow hops here names = .ok (r, none)) :
    ∃ front n, r = front ++ [n] ∧ v.item? front = some .directory := by
  fun_induction walk v follow hops here names with
  | case1 hops here =>
    rw [hhere] at h
    cases h
  | case3 hops here m rest _ _ ih => exact ih hhere h
  | case4 hops here rest _ _ ih => exact ih (hv.dropLast hhere) h
  | case6 hops here m rest _ _ _ _ there _ _ =>
    simp only [Except.ok.injEq, Prod.mk.injEq, and_true] at h
    exact ⟨here, m, h.symm, hhere⟩
  | case10 here m rest _ _ _ _ there target _ _ hops ih =>
    refine ih ?_ h
    split
    · exact v.item?_nil
    · exact hhere
  | case13 hops here m rest _ _ _ _ there hi ih => exact ih hi h
  | case2 | case5 | case7 | case8 | case9 | case11 | case12 => simp at h

theorem IsTree.put (hv : v.IsTree) {front : List String} {i : Item}
    (hfront : v.item? front = some .directory) (hr : v.item? (front ++ [n]) ≠ some .directory) :
    (v.put (front ++ [n]) i).IsTree := by
  refine ⟨?_, fun s m hm => ?_⟩
  · rw [current_put]
    exact hv.directory_put hr hv.current i
  · rw [item?_put v (by simp)] at hm
    split at hm
    · next heq =>
      obtain ⟨rfl, -⟩ := List.append_inj' heq rfl
      exact hv.directory_put hr hfront i
    · exact hv.directory_put hr (hv.parent s m hm) i

theorem IsTree.remove (hv : v.IsTree) (hr : v.item? r ≠ some .directory) : (v.remove r).IsTree := by
  refine ⟨hv.directory_remove hr hv.current, fun s m hm => ?_⟩
  obtain ⟨j, hj⟩ := Option.isSome_iff_exists.1 hm
  exact hv.directory_remove hr (hv.parent s m (by simp [item?_of_remove hj]))

/-- What is taken away and is no directory has nothing below it. -/
theorem IsTree.item?_remove_other (hv : v.IsTree) (hr : v.item? r ≠ some .directory) (hne : q ≠ r) :
    (v.remove r).item? q = v.item? q := by
  rcases hq : v.item? q with _ | i
  · rcases hq' : (v.remove r).item? q with _ | i
    · rfl
    · rw [item?_of_remove hq'] at hq
      cases hq
  · exact ((hv.standing hq).remove hr hne.symm).item

/-- Where there is nothing or a file, no way to a directory goes. -/
theorem LeadsTo.put (hlead : v.LeadsTo p q)
    (hr : ∀ j, v.item? r = some j → ∃ content, j = .file content) (i : Item) :
    (v.put r i).LeadsTo p q := by
  have hne : r ≠ [] := by
    rintro rfl
    obtain ⟨content, hfile⟩ := hr _ (item?_nil v)
    cases hfile
  refine hlead.kept (current_put ..) fun s j hs hj => ?_
  rw [item?_put v hne, if_neg, hs]
  rintro rfl
  obtain ⟨content, rfl⟩ := hr j hs
  exact hj content rfl

theorem LeadsTo.remove (hv : v.IsTree) (hlead : v.LeadsTo p q)
    (hr : ∀ j, v.item? r = some j → ∃ content, j = .file content) : (v.remove r).LeadsTo p q := by
  refine hlead.kept rfl fun s j hs hj => ?_
  have hne : r ≠ s := by
    rintro rfl
    obtain ⟨content, rfl⟩ := hr j hs
    exact hj content rfl
  have hdir : v.item? r ≠ some .directory := fun hdir => by
    obtain ⟨content, hfile⟩ := hr _ hdir
    cases hfile
  rw [item?_remove_of_not_above ((hv.standing hs).not_above hdir hne), hs]

theorem IsTree.makeDir (hv : v.IsTree) (hw : v.makeDir p = .ok w) : w.IsTree := by
  obtain ⟨r, hresolve, -, rfl⟩ := exists_put_of_makeDir hw
  obtain ⟨-, -, -, hwalk⟩ := walk_of_resolve hresolve
  obtain ⟨front, n, rfl, hfront⟩ := hv.exists_of_walk_missing (hv.item?_start p) hwalk
  exact hv.put hfront (by rw [← resolve_eq_ok hresolve]; simp)

theorem IsTree.makeDirs (hv : v.IsTree) (hw : v.makeDirs p = .ok w) : w.IsTree :=
  makeDirsOf_induction (fun _ _ _ _ hu hmake => hu.makeDir hmake) hv hw

theorem IsTree.dirsLeft (hv : v.IsTree) (p : String) : (v.dirsLeft p).IsTree :=
  dirsLeftOf_induction (fun _ _ _ _ hu hmake => hu.makeDir hmake) hv

/-- A tree without links, whose names can be joined to a path. -/
structure Unlinked (v : Volume) : Prop extends v.IsTree where
  name : ∀ q n, (v.item? (q ++ [n])).isSome → IsPlain n
  unlinked : ∀ q target, v.item? q ≠ some (.link target)

namespace Unlinked

theorem of_entries (hcurrent : v.item? v.current = some .directory)
    (hentries : ∀ e ∈ v.entries, ∃ front n, e.1 = front ++ [n] ∧ v.item? front = some .directory ∧
      IsPlain n ∧ ∀ target, e.2 ≠ .link target) : v.Unlinked := by
  have hname : ∀ q n, (v.item? (q ++ [n])).isSome → v.item? q = some .directory ∧ IsPlain n := by
    intro q n hi
    obtain ⟨i, hi⟩ := Option.isSome_iff_exists.1 hi
    obtain ⟨front, m, heq, hfront, hm, -⟩ := hentries _ (mem_entries_of_item? (by simp) hi)
    obtain ⟨hq, hn⟩ := List.append_inj' heq rfl
    rw [hq, List.singleton_inj.1 hn]
    exact ⟨hfront, hm⟩
  refine ⟨⟨hcurrent, fun q n hi => (hname q n hi).1⟩, fun q n hi => (hname q n hi).2, ?_⟩
  rintro q target hi
  have hq : q ≠ [] := by
    rintro rfl
    rw [item?_nil] at hi
    cases hi
  obtain ⟨-, -, -, -, -, hlink⟩ := hentries _ (mem_entries_of_item? hq hi)
  exact hlink target rfl

/-! ## What is found -/

/-- What is missing is missing in a directory, under one of the names that are followed. -/
theorem exists_of_walk_missing (h : v.Unlinked) {hops : Nat} {here names : List String}
    (hhere : v.item? here = some .directory) (hwalk : v.walk follow hops here names = .ok (r, none)) :
    ∃ front n, r = front ++ [n] ∧ v.item? front = some .directory ∧ IsName n ∧ n ∈ names := by
  have hlater : ∀ {m : String} {rest : List String},
      (∃ front n, r = front ++ [n] ∧ v.item? front = some .directory ∧ IsName n ∧ n ∈ rest) →
      ∃ front n, r = front ++ [n] ∧ v.item? front = some .directory ∧ IsName n ∧ n ∈ m :: rest :=
    fun ⟨front, n, hr, hfront, hn, hmem⟩ => ⟨front, n, hr, hfront, hn, List.mem_cons_of_mem _ hmem⟩
  fun_induction walk v follow hops here names with
  | case1 hops here =>
    rw [hhere] at hwalk
    cases hwalk
  | case3 hops here m rest _ _ ih => exact hlater (ih hhere hwalk)
  | case4 hops here rest _ _ ih => exact hlater (ih (h.toIsTree.dropLast hhere) hwalk)
  | case6 hops here m rest _ hdot hup hshort there _ _ =>
    simp only [Except.ok.injEq, Prod.mk.injEq, and_true] at hwalk
    exact ⟨here, m, hwalk.symm, hhere, isName_of_not hdot hup hshort, List.mem_cons_self ..⟩
  | case9 _ _ _ _ _ _ _ there target hi | case10 _ _ _ _ _ _ _ there target hi =>
    exact absurd hi (h.unlinked there target)
  | case13 hops here m rest _ _ _ _ there hi ih => exact hlater (ih hi hwalk)
  | case2 | case5 | case7 | case8 | case11 | case12 => simp at hwalk

/-- What is looked up under a name is in a directory. -/
theorem of_resolve (h : v.Unlinked) {i : Option Item}
    (hresolve : v.resolve follow p = .ok (front ++ [n], i)) :
    v.item? front = some .directory ∧ IsPlain n := by
  rcases i with _ | i
  · obtain ⟨-, hend, -, hwalk⟩ := walk_of_resolve hresolve
    obtain ⟨front', n', hr, hfound, hn, hmem⟩ := h.exists_of_walk_missing (h.item?_start p) hwalk
    obtain ⟨rfl, heq⟩ := List.append_inj' hr rfl
    rw [List.singleton_inj.1 heq]
    refine ⟨hfound, hn, Path.unslashed_of_mem_split hmem, fun hnul => hend ?_⟩
    rw [← Path.intercalate_split p]
    exact (Path.mem_intercalate (by decide)).2 ⟨n', hmem, hnul⟩
  · have hitem : (v.item? (front ++ [n])).isSome := by
      rw [← resolve_eq_ok hresolve]
      rfl
    exact ⟨h.parent front n hitem, h.name front n hitem⟩

/-- Nothing depends on whether links are followed. -/
theorem resolve_true (h : v.Unlinked) (p : String) : v.resolve true p = v.resolve false p :=
  resolve_eq_of_not_link fun r target hresolve =>
    h.unlinked r target (resolve_eq_ok hresolve).symm

/-- The listing of a name in a directory is that of the place of this name. -/
theorem readDir_join (h : v.Unlinked) {names : List String} (hlead : v.LeadsTo p q)
    (hn : IsPlain n) (hnames : v.readDir (Path.join p n) = .ok names) :
    names = v.children (q ++ [n]) := by
  rw [readDir] at hnames
  rcases hfind : v.find true (Path.join p n) with e | ⟨r, _ | _ | _⟩
  all_goals
    rw [hfind] at hnames
    cases hnames
  have hresolve := resolve_of_find hfind
  obtain ⟨-, -, hlen, -⟩ := walk_of_resolve hresolve
  rw [hlead.resolve_join hn hlen (h.unlinked _)] at hresolve
  simp only [Except.ok.injEq, Prod.mk.injEq] at hresolve
  rw [hresolve.1]

/-! ## What is changed -/

theorem remove (h : v.Unlinked) (hr : v.item? r ≠ some .directory) : (v.remove r).Unlinked := by
  refine ⟨h.toIsTree.remove hr, fun s m hm => ?_, fun s target hs =>
    h.unlinked s target (item?_of_remove hs)⟩
  obtain ⟨j, hj⟩ := Option.isSome_iff_exists.1 hm
  exact h.name s m (by simp [item?_of_remove hj])

theorem put (h : v.Unlinked) (hfront : v.item? front = some .directory) (hn : IsPlain n)
    (hr : v.item? (front ++ [n]) ≠ some .directory) (hi : ∀ target, i ≠ .link target) :
    (v.put (front ++ [n]) i).Unlinked := by
  have hne : front ++ [n] ≠ [] := by simp
  refine ⟨h.toIsTree.put hfront hr, fun s m hm => ?_, fun s target hs => ?_⟩
  · rw [item?_put v hne] at hm
    split at hm
    · next heq =>
      obtain ⟨-, hm⟩ := List.append_inj' heq rfl
      rw [List.singleton_inj.1 hm]
      exact hn
    · exact h.name s m hm
  · rw [item?_put v hne] at hs
    split at hs
    · exact hi target (Option.some.inj hs)
    · exact h.unlinked s target hs

theorem makeDir (h : v.Unlinked) (hw : v.makeDir p = .ok w) : w.Unlinked := by
  obtain ⟨r, hresolve, hne, rfl⟩ := exists_put_of_makeDir hw
  obtain ⟨front, n, rfl⟩ := (List.eq_nil_or_concat r).resolve_left hne
  rw [List.concat_eq_append] at hresolve ⊢
  obtain ⟨hfront, hn⟩ := h.of_resolve hresolve
  exact h.put hfront hn (by rw [← resolve_eq_ok hresolve]; simp) (by simp)

theorem makeDirs (h : v.Unlinked) (hw : v.makeDirs p = .ok w) : w.Unlinked :=
  makeDirsOf_induction (fun _ _ _ _ hu hmake => hu.makeDir hmake) h hw

theorem dirsLeft (h : v.Unlinked) (p : String) : (v.dirsLeft p).Unlinked :=
  dirsLeftOf_induction (fun _ _ _ _ hu hmake => hu.makeDir hmake) h

theorem exists_file (h : v.Unlinked) (hr : v.item? r ≠ some .directory) :
    ∀ j, v.item? r = some j → ∃ content, j = .file content := by
  rintro (content | _ | target) hj
  · exact ⟨content, rfl⟩
  · exact absurd hj hr
  · exact absurd hj (h.unlinked r target)

theorem leadsTo_remove (h : v.Unlinked) (hlead : v.LeadsTo p q)
    (hr : v.item? r ≠ some .directory) : (v.remove r).LeadsTo p q :=
  hlead.remove h.toIsTree (h.exists_file hr)

theorem leadsTo_put (h : v.Unlinked) (hlead : v.LeadsTo p q)
    (hr : v.item? r ≠ some .directory) : (v.put r i).LeadsTo p q :=
  hlead.put (h.exists_file hr) i

end Unlinked

end CodeGraph.Volume
