import CodeGraph.Proofs.Volume.Publishing

/-!
# Names behind a path

The names that are joined to a path are looked up in one directory (`LooksIn`), also behind an empty
path. What is found behind a name is at the place of the name in this directory, unless there is a link
at this place that is followed (`exists_of_resolve_behind`), and depends on nothing but what is there
(`LooksIn.map_resolve_eq`).
-/

namespace CodeGraph.Volume

open CodeGraph.Path (IsPlain)

variable {v w : Volume} {p n : String} {q q' s : List String} {i : Option Item} {follow : Bool}

/-- The directory in which the names behind a path are looked up: the one to which the path leads, and
behind an empty path the one where relative paths start. -/
def LooksIn (v : Volume) (p : String) (q : List String) : Prop :=
  if p = "" then q = v.current else v.LeadsTo p q

theorem looksIn_empty (v : Volume) : v.LooksIn "" v.current := by
  rw [LooksIn, if_pos rfl]

theorem LeadsTo.looksIn (h : v.LeadsTo p q) : v.LooksIn p q := by
  rw [LooksIn, if_neg h.ne_empty]
  exact h

/-- An empty path, or one that leads to the directory. -/
theorem LooksIn.cases (h : v.LooksIn p q) : p = "" ∧ q = v.current ∨ v.LeadsTo p q := by
  rw [LooksIn] at h
  split at h
  · next hp => exact .inl ⟨hp, h⟩
  · exact .inr h

theorem LooksIn.leadsTo (h : v.LooksIn p q) (hp : p ≠ "") : v.LeadsTo p q := by
  rw [LooksIn, if_neg hp] at h
  exact h

/-- No directory is made on a path that leads to one. -/
theorem LooksIn.makeDirs (h : v.LooksIn p q) : v.makeDirs p = .ok v := by
  rcases h.cases with ⟨rfl, -⟩ | hlead
  · rfl
  · exact hlead.makeDirs

theorem LooksIn.unique (h : v.LooksIn p q) (h' : v.LooksIn p q') : q = q' := by
  rcases h.cases with ⟨rfl, rfl⟩ | hlead
  · rw [LooksIn, if_pos rfl] at h'
    exact h'.symm
  · exact hlead.unique (h'.leadsTo hlead.ne_empty)

theorem LooksIn.item? (h : v.LooksIn p q) (hv : v.IsTree) : v.item? q = some .directory := by
  rcases h.cases with ⟨-, rfl⟩ | hlead
  · exact hv.current
  · exact hlead.item?

/-- The directory is there still where all directories and links are kept. -/
theorem LooksIn.kept (h : v.LooksIn p q) (hcurrent : w.current = v.current)
    (hkept : ∀ s i, v.item? s = some i → (∀ content, i ≠ .file content) → w.item? s = some i) :
    w.LooksIn p q := by
  rcases h.cases with ⟨rfl, rfl⟩ | hlead
  · rw [← hcurrent]
    exact w.looksIn_empty
  · exact (hlead.kept hcurrent hkept).looksIn

/-- Behind a name that is looked up there is a way of this one name from the directory, also where only
files have changed. -/
theorem LooksIn.resolve_join_kept (h : v.LooksIn p q) (hn : IsSegment n)
    (hlen : (Path.join p n).utf8ByteSize ≤ longestPath) :
    ∃ left, ∀ w : Volume, w.current = v.current → (∀ s i, v.item? s = some i →
      (∀ content, i ≠ .file content) → w.item? s = some i) →
        ∀ follow, w.resolve follow (Path.join p n) = w.walk follow left q [n] := by
  rcases h.cases with ⟨rfl, rfl⟩ | hlead
  · have hjoin : Path.join "" n = n := if_pos (.inr rfl)
    rw [hjoin] at hlen ⊢
    refine ⟨40, fun w hcurrent hw follow => ?_⟩
    rw [resolve_eq_walk hn.ne_empty hn.unended hlen, Path.isAbsolute_of_unslashed hn.unslashed,
      Path.split_unslashed hn.unslashed, hcurrent]
    rfl
  · have hslash := hn.unslashed
    have hend : '\x00' ∉ (Path.join p n).toList := by
      rw [Path.join_unslashed hlead.ne_empty hslash]
      split <;> simp [hlead.unended, hn.unended]
    obtain ⟨a, hsplit, ha⟩ := Path.exists_split_join_unslashed (p := p) hslash
    exact hlead.resolve_append_kept (Path.isAbsolute_join_unslashed hlead.ne_empty hslash) hsplit
      (Path.filter_counts_of_filter_ne_empty ha) (List.cons_ne_nil _ _)
      (Path.join_ne_empty_unslashed hlead.ne_empty hslash) hend hlen

theorem LooksIn.resolve_join (h : v.LooksIn p q) (hn : IsSegment n)
    (hlen : (Path.join p n).utf8ByteSize ≤ longestPath) :
    ∃ left, ∀ follow, v.resolve follow (Path.join p n) = v.walk follow left q [n] := by
  obtain ⟨left, hleft⟩ := h.resolve_join_kept hn hlen
  exact ⟨left, hleft v rfl fun _ _ hi _ => hi⟩

/-- What is looked up under a name behind a path is looked up in a directory, and neither the name nor
the path is too long. -/
theorem LooksIn.of_resolve_join {found : List String × Option Item} (hn : IsSegment n)
    (h : v.resolve follow (Path.join p n) = .ok found) :
    IsPlain n ∧ (Path.join p n).utf8ByteSize ≤ longestPath ∧ ∃ q, v.LooksIn p q := by
  by_cases hp : p = ""
  · subst hp
    have hjoin : Path.join "" n = n := if_pos (.inr rfl)
    rw [hjoin] at h ⊢
    obtain ⟨-, -, hlen, hwalk⟩ := walk_of_resolve h
    rw [Path.split_unslashed hn.unslashed, ← List.nil_append [n]] at hwalk
    obtain ⟨hname, -⟩ := exists_of_walk_concat hn.ne_empty hn.ne_dot hn.ne_up hwalk
    exact ⟨⟨hname, hn.unslashed, hn.unended⟩, hlen, _, v.looksIn_empty⟩
  · obtain ⟨hplain, hlen, q, hq⟩ := LeadsTo.of_resolve_join hp hn h
    exact ⟨hplain, hlen, q, hq.looksIn⟩

/-- **Where names lead.** What is looked up under a name behind a path is at the place of the name in
the directory of the path, unless a link at this place is followed. -/
theorem exists_of_resolve_behind (hn : IsSegment n)
    (h : v.resolve follow (Path.join p n) = .ok (s, i)) :
    ∃ q, v.LooksIn p q ∧
      (s = q ++ [n] ∨ follow = true ∧ ∃ target, v.item? (q ++ [n]) = some (.link target)) := by
  obtain ⟨hplain, hlen, q, hq⟩ := LooksIn.of_resolve_join hn h
  obtain ⟨left, hleft⟩ := hq.resolve_join hn hlen
  refine ⟨q, hq, ?_⟩
  rw [hleft] at h
  cases follow with
  | false => exact .inl (eq_of_walk_singleton hn.ne_empty hn.ne_dot hn.ne_up h)
  | true =>
    by_cases hlink : ∃ target, v.item? (q ++ [n]) = some (.link target)
    · exact .inr ⟨rfl, hlink⟩
    · left
      have hsame : v.walk true left q [n] = v.walk false left q [n] := by
        refine walk_eq_of_not_link fun r target hwalk => hlink ⟨target, ?_⟩
        rw [← eq_of_walk_singleton hn.ne_empty hn.ne_dot hn.ne_up hwalk]
        exact (walk_eq_ok hwalk).symm
      rw [hsame] at h
      exact eq_of_walk_singleton hn.ne_empty hn.ne_dot hn.ne_up h

theorem exists_of_resolve_unfollowed (hn : IsSegment n)
    (h : v.resolve false (Path.join p n) = .ok (s, i)) : ∃ q, v.LooksIn p q ∧ s = q ++ [n] := by
  obtain ⟨q, hq, hs | ⟨hfollow, -⟩⟩ := exists_of_resolve_behind hn h
  · exact ⟨q, hq, hs⟩
  · cases hfollow

/-- A name that is too long is not looked up. -/
theorem walk_long (hq : v.item? q = some .directory) (hn : IsSegment n)
    (hlong : longestName < n.utf8ByteSize) (follow : Bool) (left : Nat) :
    v.walk follow left q [n] = .error .nameTooLong := by
  rw [walk]
  simp [hq, Item.isDirectory, hn.ne_empty, hn.ne_dot, hn.ne_up, hlong]

theorem LooksIn.resolve_join_long (h : v.LooksIn p q) (hv : v.IsTree) (hn : IsSegment n)
    (hlong : longestName < n.utf8ByteSize) (hlen : (Path.join p n).utf8ByteSize ≤ longestPath)
    (follow : Bool) : v.resolve follow (Path.join p n) = .error .nameTooLong := by
  obtain ⟨left, hleft⟩ := h.resolve_join hn hlen
  rw [hleft, walk_long (h.item? hv) hn hlong]

/-- What is found under a name depends on what is at its place and on nothing else, unless this is a
link. -/
theorem LooksIn.map_resolve_eq (h : v.LooksIn p q) (h' : w.LooksIn p q') (hv : v.IsTree)
    (hw : w.IsTree) (hn : IsSegment n) (hi : v.item? (q ++ [n]) = w.item? (q' ++ [n]))
    (hlink : ∀ target, v.item? (q ++ [n]) ≠ some (.link target)) (follow : Bool) :
    (v.resolve follow (Path.join p n)).map Prod.snd =
      (w.resolve follow (Path.join p n)).map Prod.snd := by
  by_cases hlen : (Path.join p n).utf8ByteSize ≤ longestPath
  · by_cases hshort : n.utf8ByteSize ≤ longestName
    · obtain ⟨left, hleft⟩ := h.resolve_join hn hlen
      obtain ⟨left', hleft'⟩ := h'.resolve_join hn hlen
      have hname : IsName n := ⟨hn.ne_empty, hn.ne_dot, hn.ne_up, hshort⟩
      rw [hleft, hleft', walk_singleton (h.item? hv) hname hlink,
        walk_singleton (h'.item? hw) hname (hi ▸ hlink)]
      exact congrArg Except.ok hi
    · rw [h.resolve_join_long hv hn (Nat.lt_of_not_le hshort) hlen,
        h'.resolve_join_long hw hn (Nat.lt_of_not_le hshort) hlen]
  · rw [resolve_of_not_takes (fun htakes => hlen htakes.short) v w]

/-! ## Beside a file that is written -/

section Beside

variable {m : String} {content : ByteArray} (hv : v.IsTree)
  (hm : ∀ j, v.item? (q ++ [m]) = some j → ∃ old, j = .file old)
  (htarget : ∀ s target, v.item? s = some (.link target) → m ∉ Path.split target)

include hm in
/-- Directories and links are at other places than a file that is written. -/
theorem item?_put_of_kept (s : List String) (i : Item) (hi : v.item? s = some i)
    (hkept : ∀ old, i ≠ .file old) : (v.put (q ++ [m]) (.file content)).item? s = some i := by
  rw [item?_put v (by simp), if_neg, hi]
  rintro rfl
  obtain ⟨old, rfl⟩ := hm i hi
  exact hkept old rfl

include hv hm htarget

/-- A way on which a name is not met ends as before when a file of this name is written. -/
theorem walk_put_beside {hops : Nat} {here names : List String}
    (hhere : v.item? here = some .directory) (hnames : m ∉ names) :
    (v.put (q ++ [m]) (.file content)).walk follow hops here names =
      v.walk follow hops here names := by
  cases Abreast.of_kept (item?_put_of_kept hm) hv follow hops here names hhere with
  | same walk => exact walk
  | @parts left there n rest directory name item met walk walk' =>
    have hne : n ≠ m := by
      rintro rfl
      rcases met with hmem | ⟨s, target, hs, hmem⟩
      · exact hnames hmem
      · exact htarget s target hs hmem
    have hother : (v.put (q ++ [m]) (.file content)).item? (there ++ [n]) =
        v.item? (there ++ [n]) := by
      rw [item?_put v (by simp), if_neg]
      intro heq
      exact hne (List.singleton_inj.1 (List.append_inj' heq rfl).2)
    have hthere : (v.put (q ++ [m]) (.file content)).item? there = some .directory :=
      item?_put_of_kept hm _ _ directory (by simp)
    rw [walk, walk']
    rcases hitem : v.item? (there ++ [n]) with _ | j
    · rw [walk_cons_missing directory name hitem,
        walk_cons_missing hthere name (hother.trans hitem)]
    · obtain ⟨old, rfl⟩ := item j hitem
      rw [walk_cons_file directory name hitem, walk_cons_file hthere name (hother.trans hitem)]

/-- What is looked up under another name behind the path of the directory is what it was before. -/
theorem LooksIn.resolve_put_beside (h : v.LooksIn p q) (hn : IsSegment n) (hne : n ≠ m)
    (follow : Bool) : (v.put (q ++ [m]) (.file content)).resolve follow (Path.join p n) =
      v.resolve follow (Path.join p n) := by
  by_cases hlen : (Path.join p n).utf8ByteSize ≤ longestPath
  · obtain ⟨left, hleft⟩ := h.resolve_join_kept hn hlen
    rw [hleft v rfl (fun _ _ hi _ => hi),
      hleft _ (current_put ..) (item?_put_of_kept hm)]
    exact walk_put_beside hv hm htarget (h.item? hv) (by simpa using hne.symm)
  · exact resolve_of_not_takes (fun htakes => hlen htakes.short) ..

end Beside

/-! ## What is read -/

theorem map_find_eq (h : (v.resolve true p).map Prod.snd = (w.resolve true p).map Prod.snd) :
    (v.find true p).map Prod.snd = (w.find true p).map Prod.snd := by
  rw [find, find]
  rcases hv : v.resolve true p with e | ⟨s, _ | i⟩ <;>
    rcases hw : w.resolve true p with e' | ⟨s', _ | i'⟩ <;>
    rw [hv, hw] at h <;> cases h <;> rfl

section Read

variable (h : (v.find true p).map Prod.snd = (w.find true p).map Prod.snd)

include h

theorem readFile_eq : v.readFile p = w.readFile p := by
  rw [readFile, readFile]
  rcases hv : v.find true p with e | ⟨s, i⟩ <;> rcases hw : w.find true p with e' | ⟨s', i'⟩ <;>
    rw [hv, hw] at h <;> cases h
  · rfl
  · cases i <;> rfl

theorem tryExists_eq : v.tryExists p = w.tryExists p := by
  rw [tryExists, tryExists, metadata, metadata]
  rcases hv : v.find true p with e | ⟨s, i⟩ <;> rcases hw : w.find true p with e' | ⟨s', i'⟩ <;>
    rw [hv, hw] at h <;> cases h <;> rfl

end Read

end CodeGraph.Volume
