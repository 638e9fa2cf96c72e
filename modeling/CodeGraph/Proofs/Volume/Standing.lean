import CodeGraph.Proofs.Volume.Places

/-!
# What stays when something else is changed

An item whose directories are all there (`Standing`) stays as it is when a file, a link or nothing at
another place is taken away or replaced (`Standing.remove`, `Standing.put`), and when directories are
made (`Standing.within`). So what a program leaves alone depends on the places that its paths lead to.
A path whose last name is looked up leads to a place of this name (`exists_of_resolve_name`), and one of two
names behind a path to a directory leads to a place two steps further down, or next to the directory if
the first name goes up (`LeadsTo.resolve_two`).

A way to a directory that goes through no place that is changed leads there still
(`LeadsTo.kept`).
-/

namespace CodeGraph.Volume

variable {v w : Volume} {p p' : String} {q r : List String} {i j : Item}

/-- An item, each directory on the way to which is there. -/
structure Standing (v : Volume) (q : List String) (i : Item) : Prop where
  item : v.item? q = some i
  above : ∀ r, r <+: q → r ≠ q → v.item? r = some .directory

theorem Standing.not_above (h : v.Standing q i) (hr : v.item? r ≠ some .directory) (hne : r ≠ q) :
    ¬ r <+: q := fun hprefix => hr (h.above r hprefix hne)

theorem item?_remove_of_not_above (hq : ¬ r <+: q) : (v.remove r).item? q = v.item? q := by
  rw [item?_remove, if_neg]
  rintro ⟨-, hprefix⟩
  exact hq (List.isPrefixOf_iff_prefix.1 hprefix)

theorem Standing.remove (h : v.Standing q i) (hr : v.item? r ≠ some .directory) (hne : r ≠ q) :
    (v.remove r).Standing q i := by
  have hq := h.not_above hr hne
  refine ⟨?_, ?_⟩
  · rw [item?_remove_of_not_above hq]
    exact h.item
  · intro s hs hsq
    rw [item?_remove_of_not_above fun hrs => hq (hrs.trans hs)]
    exact h.above s hs hsq

theorem Standing.put (h : v.Standing q i) (hr : v.item? r ≠ some .directory) (hne : r ≠ q)
    (j : Item) : (v.put r j).Standing q i := by
  have hr' : r ≠ [] := by
    rintro rfl
    exact hr (item?_nil v)
  refine ⟨?_, ?_⟩
  · rw [item?_put v hr', if_neg hne.symm]
    exact h.item
  · intro s hs hsq
    have hsr : s ≠ r := by
      rintro rfl
      exact hr (h.above s hs hsq)
    rw [item?_put v hr', if_neg hsr]
    exact h.above s hs hsq

theorem Standing.within (h : v.Standing q i) (hw : v.Within w) : w.Standing q i :=
  ⟨hw.item _ _ h.item, fun r hr hne => hw.item _ _ (h.above r hr hne)⟩

/-! ## Where paths lead -/

/-- A way that does not follow a link at its end ends at a place of the last name. -/
theorem exists_of_walk {hops : Nat} {here names : List String} {n : String} {i : Option Item}
    (hlast : names.getLast? = some n) (hempty : n ≠ "") (hdot : n ≠ ".") (hup : n ≠ "..")
    (h : v.walk false hops here names = .ok (r, i)) : ∃ front, r = front ++ [n] := by
  have hnext : ∀ {m : String} {rest : List String}, (m :: rest).getLast? = some n → m ≠ n →
      rest.getLast? = some n := by
    intro m rest hlast hne
    rcases rest with _ | ⟨m', rest⟩
    · exact absurd (by simpa using hlast) hne
    · rw [List.getLast?_cons_cons] at hlast
      exact hlast
  fun_induction walk v false hops here names with
  | case1 => simp at hlast
  | case3 hops here m rest _ hm ih =>
    refine ih (hnext hlast ?_) h
    rintro rfl
    exact hm.elim hempty hdot
  | case4 hops here rest _ _ ih => exact ih (hnext hlast hup.symm) h
  | case6 hops here m rest _ _ _ _ there _ hrest =>
    simp only [Except.ok.injEq, Prod.mk.injEq] at h
    obtain ⟨rfl, -⟩ := h
    -- Nothing but empty names may follow what is missing, and the last name is not empty.
    by_cases hm : m = n
    · exact ⟨here, by rw [← hm]⟩
    · have hmem := List.mem_of_getLast? (hnext hlast hm)
      exact absurd (by simpa using List.all_eq_true.1 hrest n hmem) hempty
  | case8 hops here m rest _ _ _ _ there target _ hstop =>
    simp only [Except.ok.injEq, Prod.mk.injEq] at h
    obtain ⟨rfl, -⟩ := h
    obtain rfl := List.isEmpty_iff.1 hstop.1
    obtain rfl : m = n := by simpa using hlast
    exact ⟨here, rfl⟩
  | case10 here m rest _ _ _ _ there target _ hgo hops ih =>
    refine ih ?_ h
    rcases rest with _ | ⟨m', rest⟩
    · simp at hgo
    · rw [List.getLast?_cons_cons] at hlast
      rw [List.getLast?_append, hlast, Option.some_or]
  | case11 hops here m rest _ _ _ _ there content _ hrest =>
    simp only [Except.ok.injEq, Prod.mk.injEq] at h
    obtain ⟨rfl, -⟩ := h
    obtain rfl := List.isEmpty_iff.1 hrest
    obtain rfl : m = n := by simpa using hlast
    exact ⟨here, rfl⟩
  | case13 hops here m rest _ _ _ _ there _ ih =>
    rcases rest with _ | ⟨m', rest⟩
    · obtain rfl : m = n := by simpa using hlast
      rw [walk] at h
      simp only [Except.ok.injEq, Prod.mk.injEq] at h
      obtain ⟨rfl, -⟩ := h
      exact ⟨here, rfl⟩
    · rw [List.getLast?_cons_cons] at hlast
      exact ih hlast h
  | case2 | case5 | case7 | case9 | case12 => simp at h

/-- Whether a link at the end is followed makes no difference unless there is one. -/
theorem walk_eq_of_not_link {hops : Nat} {here names : List String}
    (h : ∀ r target, v.walk false hops here names ≠ .ok (r, some (.link target))) :
    v.walk true hops here names = v.walk false hops here names := by
  fun_induction walk v false hops here names
  case case1 => rw [walk]
  case case8 hops here m rest _ _ _ _ there target _ _ => exact absurd rfl (h there target)
  case case10 here m rest _ _ _ _ there target _ hgo hops ih =>
    have hrest : rest ≠ [] := by simpa using hgo
    have ih := ih h
    simp only [dite_eq_ite] at ih
    rw [walk]
    simp +zetaDelta [*]
  case case9 here m rest _ _ _ _ there target _ hgo =>
    have hrest : rest ≠ [] := by simpa using hgo
    rw [walk]
    simp +zetaDelta [*]
  case case3 ih | case4 ih | case13 ih =>
    have ih := ih h
    rw [walk]
    simp +zetaDelta [*]
  all_goals
    rw [walk]
    simp +zetaDelta [*]

/-- One name leads to the place of this name in a directory. -/
theorem eq_of_walk_singleton {hops : Nat} {here : List String} {n : String} {i : Option Item}
    (hempty : n ≠ "") (hdot : n ≠ ".") (hup : n ≠ "..")
    (h : v.walk false hops here [n] = .ok (r, i)) : r = here ++ [n] := by
  rw [walk] at h
  simp only [hempty, hdot, hup, or_self, if_false] at h
  split at h
  · cases h
  split at h
  · cases h
  split at h
  · cases h
    rfl
  · simp only [List.isEmpty_nil, Bool.not_false, and_self, if_true] at h
    cases h
    rfl
  · cases h
    rfl
  · rw [walk] at h
    cases h
    rfl

theorem walk_of_resolve {follow : Bool} {found : List String × Option Item}
    (h : v.resolve follow p = .ok found) :
    p ≠ "" ∧ '\x00' ∉ p.toList ∧ p.utf8ByteSize ≤ longestPath ∧
      v.walk follow 40 (if Path.isAbsolute p then [] else v.current) (Path.split p) = .ok found := by
  rw [resolve] at h
  split at h
  · cases h
  split at h
  · cases h
  split at h
  · cases h
  next hempty hend hlen => exact ⟨hempty, by simpa using hend, Nat.not_lt.1 hlen, h⟩

theorem resolve_of_find {follow : Bool} (h : v.find follow p = .ok (r, i)) :
    v.resolve follow p = .ok (r, some i) := by
  rw [find] at h
  rcases hr : v.resolve follow p with e | ⟨q, _ | j⟩
  all_goals
    rw [hr] at h
    cases h
  rfl

theorem item?_of_find {follow : Bool} (h : v.find follow p = .ok (r, i)) : v.item? r = some i :=
  (resolve_eq_ok (resolve_of_find h)).symm

theorem not_directory_of_find {follow : Bool} (h : v.find follow p = .ok (r, i))
    (hi : i ≠ .directory) : v.item? r ≠ some .directory := by
  rw [item?_of_find h]
  simpa using hi

theorem resolve_eq_of_not_link
    (h : ∀ r target, v.resolve false p ≠ .ok (r, some (.link target))) :
    v.resolve true p = v.resolve false p := by
  rw [resolve, resolve]
  split
  · rfl
  split
  · rfl
  split
  · rfl
  next hempty hend hlen =>
    refine walk_eq_of_not_link ?_
    intro r target hwalk
    refine h r target ?_
    rw [resolve, if_neg hempty, if_neg hend, if_neg hlen]
    exact hwalk

/-- What is looked up by a name is at a place of this name. -/
theorem exists_of_resolve_name {base n : String} {i : Option Item} (hn : Path.IsPlain n)
    (h : v.resolve false (Path.join base n) = .ok (r, i)) : ∃ front, r = front ++ [n] := by
  obtain ⟨-, -, -, hwalk⟩ := walk_of_resolve h
  obtain ⟨a, hsplit, -⟩ := Path.exists_split_join (p := base) hn
  rw [hsplit] at hwalk
  exact exists_of_walk (by simp) hn.ne_empty hn.ne_dot hn.ne_up hwalk

/-- What is looked up by a path that ends in some way is at a place of such a name. -/
theorem exists_of_resolve_ending {e : String} {i : Option Item} (he : '/' ∉ e.toList)
    (hlong : 2 < e.toList.length) (h : v.resolve false (p ++ e) = .ok (r, i)) :
    ∃ front n, r = front ++ [n ++ e] := by
  obtain ⟨-, -, -, hwalk⟩ := walk_of_resolve h
  obtain ⟨front, n, hsplit⟩ := Path.exists_split_append p he
  have hne : ∀ m : String, m.toList.length ≤ 2 → n ++ e ≠ m := by
    rintro m hm rfl
    rw [String.toList_append, List.length_append] at hm
    omega
  rw [hsplit] at hwalk
  obtain ⟨front', hr⟩ := exists_of_walk (n := n ++ e) (by simp) (hne "" (by decide))
    (hne "." (by decide)) (hne ".." (by decide)) hwalk
  exact ⟨front', n, hr⟩

/-! ## Making directories -/

theorem exists_put_of_makeDir (h : v.makeDir p = .ok w) :
    ∃ r, v.resolve false p = .ok (r, none) ∧ r ≠ [] ∧ w = v.put r .directory := by
  rw [makeDir] at h
  rcases hresolve : v.resolve false p with e | ⟨r, _ | j⟩
  all_goals
    rw [hresolve] at h
    cases h
  refine ⟨r, rfl, ?_, rfl⟩
  rintro rfl
  have hnone := resolve_eq_ok hresolve
  rw [item?_nil] at hnone
  cases hnone

/-- Nothing but directories is made. -/
theorem item?_of_makeDirs (h : v.makeDirs p = .ok w) (hi : w.item? q = some i) :
    v.item? q = some i ∨ i = .directory := by
  have hmade : ∀ j, w.item? q = some j → v.item? q = some j ∨ j = .directory := by
    refine makeDirsOf_induction (P := fun u => ∀ j, u.item? q = some j →
      v.item? q = some j ∨ j = .directory) ?_ (fun _ => .inl) h
    intro u u' n _ hu hmake j hj
    obtain ⟨r, -, hr, rfl⟩ := exists_put_of_makeDir hmake
    rw [item?_put u hr] at hj
    split at hj
    · cases hj
      exact .inr rfl
    · exact hu j hj
  exact hmade i hi

/-- What leads to something if links are followed leads to something if the last one is not. -/
theorem exists_resolve_of_leadsTo (h : v.LeadsTo p q) : ∃ r i, v.resolve false p = .ok (r, some i) := by
  by_cases hlink : ∃ r target, v.resolve false p = .ok (r, some (.link target))
  · obtain ⟨r, target, hr⟩ := hlink
    exact ⟨r, _, hr⟩
  · rw [← resolve_eq_of_not_link fun r target hr => hlink ⟨r, target, hr⟩]
    exact ⟨q, _, h⟩

/-- A directory that is there is not made. -/
theorem LeadsTo.makeDir (h : v.LeadsTo p q) : v.makeDir p = .error .alreadyExists := by
  obtain ⟨r, i, hi⟩ := exists_resolve_of_leadsTo h
  rw [Volume.makeDir, hi]
  rfl

theorem LeadsTo.isDirectory (h : v.LeadsTo p q) : v.isDirectory p = true := by
  have hresolve : v.resolve true p = .ok (q, some .directory) := h
  rw [Volume.isDirectory, metadata, find, hresolve]
  rfl

/-- Where there is a directory nothing is made. -/
theorem LeadsTo.makeDirs (h : v.LeadsTo p q) : v.makeDirs p = .ok v := by
  by_cases hparts : Path.parts p = []
  · rw [Volume.makeDirs, ancestry, hparts]
    rfl
  have hlead := h.ofParts hparts
  obtain ⟨above, habove⟩ := exists_ancestry hparts
  rw [Volume.makeDirs, habove, makeDirsOf, hlead.makeDir]
  exact if_pos hlead.isDirectory

theorem LeadsTo.dirsLeft (h : v.LeadsTo p q) : v.dirsLeft p = v := by
  by_cases hparts : Path.parts p = []
  · rw [Volume.dirsLeft, ancestry, hparts]
    rfl
  obtain ⟨above, habove⟩ := exists_ancestry hparts
  rw [Volume.dirsLeft, habove, dirsLeftOf, (h.ofParts hparts).makeDir]

/-! ## A directory that stays where it is -/

/-- A way to a directory leads there in every volume that has all directories and links. -/
theorem walk_kept (hkept : ∀ s i, v.item? s = some i → (∀ content, i ≠ .file content) →
    w.item? s = some i) {hops : Nat} {here names : List String}
    (h : v.walk true hops here names = .ok (q, some .directory)) :
    w.walk true hops here names = .ok (q, some .directory) := by
  obtain ⟨left, hleft⟩ := walk_append_kept h
  have hq : w.item? q = some .directory := hkept q _ (walk_eq_ok h).symm (by simp)
  -- An empty name at the end makes no difference, and with it the way is one that goes on.
  have hmore : w.walk true hops here (names ++ [""]) = .ok (q, some .directory) := by
    rw [hleft w hkept true [""] (by simp), walk_cons_skip hq (.inl rfl), walk, hq]
  exact walk_of_filter_eq hmore names (by simp [counts])

theorem LeadsTo.kept (h : v.LeadsTo p q) (hcurrent : w.current = v.current)
    (hkept : ∀ s i, v.item? s = some i → (∀ content, i ≠ .file content) → w.item? s = some i) :
    w.LeadsTo p q := by
  rw [LeadsTo, resolve_eq_walk h.ne_empty h.unended h.short, hcurrent]
  exact walk_kept hkept h.walk

/-- Two names behind a path to a directory lead two steps further down, or beside the directory if the
first one leads up. -/
theorem LeadsTo.resolve_two {s n : String} {i : Option Item} (h : v.LeadsTo p q)
    (hs : '/' ∉ s.toList) (hs' : s ≠ "" ∧ s ≠ ".") (hn : '/' ∉ n.toList)
    (hn' : n ≠ "" ∧ n ≠ "." ∧ n ≠ "..") (hlink : ∀ target, v.item? (q ++ [s]) ≠ some (.link target))
    (hr : v.resolve false (Path.join (Path.join p s) n) = .ok (r, i)) :
    r = if s = ".." then q.dropLast ++ [n] else q ++ [s, n] := by
  obtain ⟨hempty, hend, hlen, -⟩ := walk_of_resolve hr
  obtain ⟨a, hsplit, ha⟩ := Path.exists_split_join_unslashed (p := p) hs
  have hsplit' : Path.split (Path.join (Path.join p s) n) = a ++ [s, n] := by
    rw [Path.join_join_unslashed h.ne_empty hs hs'.1 hn, Path.split_append_slash, hsplit,
      Path.split_unslashed hn, List.append_assoc]
    rfl
  have habs : Path.isAbsolute (Path.join (Path.join p s) n) = Path.isAbsolute p := by
    rw [Path.isAbsolute_join_unslashed (Path.join_ne_empty_unslashed h.ne_empty hs) hn,
      Path.isAbsolute_join_unslashed h.ne_empty hs]
  obtain ⟨left, hleft⟩ := h.resolve_append habs hsplit' (Path.filter_counts_of_filter_ne_empty ha)
    (List.cons_ne_nil _ _) hempty hend hlen
  rw [hleft] at hr
  split
  · next hup =>
    rw [hup, walk_cons_up h.item?] at hr
    exact eq_of_walk_singleton hn'.1 hn'.2.1 hn'.2.2 hr
  · next hup =>
    have hdot : ¬ (s = "" ∨ s = ".") := by
      rintro (hempty | hdot)
      · exact hs'.1 hempty
      · exact hs'.2 hdot
    have hlong : ¬ longestName < s.utf8ByteSize := by
      intro hlong
      rw [Volume.walk] at hr
      simp [h.item?, Item.isDirectory, hs'.1, hs'.2, hup, hlong] at hr
    have hs := isName_of_not hdot hup hlong
    rcases hitem : v.item? (q ++ [s]) with _ | (content | _ | target)
    · rw [walk_cons_missing h.item? hs hitem] at hr
      simp [hn'.1] at hr
    · rw [walk_cons_file h.item? hs hitem] at hr
      simp at hr
    · rw [walk_cons_directory h.item? hs hitem] at hr
      rw [eq_of_walk_singleton hn'.1 hn'.2.1 hn'.2.2 hr, List.append_assoc]
      rfl
    · exact absurd hitem (hlink target)

/-! ## Changing files -/

/-- A file is written where the path leads, and if nothing was there the path leads to it. -/
theorem exists_put_of_writeFile {content : ByteArray} (h : v.writeFile p content = .ok w) :
    ∃ r i, v.resolve true p = .ok (r, i) ∧ i ≠ some .directory ∧ w = v.put r (.file content) ∧
      (i = none → w.fileExists p = true) := by
  rw [writeFile] at h
  rcases hr : v.resolve true p with e | ⟨r, _ | _ | _ | _⟩
  all_goals
    rw [hr] at h
    simp only [bind, Except.bind] at h
  · cases h
  · split at h
    · cases h
    · next hthere =>
      cases h
      exact ⟨r, none, rfl, by simp, rfl, fun _ => by simpa using hthere⟩
  · cases h
    exact ⟨r, _, rfl, by simp, rfl, by simp⟩
  · cases h
  · cases h
    exact ⟨r, _, rfl, by simp, rfl, by simp⟩

/-- What has been written is no directory. -/
theorem find_of_writeFile {content : ByteArray} (h : v.writeFile p content = .ok w) :
    w.find false p ≠ .ok (q, .directory) := by
  obtain ⟨r, i, hresolve, hi, rfl, -⟩ := exists_put_of_writeFile h
  intro hfind
  have hend := resolve_of_find hfind
  have hleads : (v.put r (.file content)).LeadsTo p q := by
    rw [LeadsTo, resolve_eq_of_not_link, hend]
    intro r' target hlink
    rw [hend] at hlink
    simp at hlink
  have hr : r ≠ [] := by
    rintro rfl
    rw [resolve_eq_ok hresolve, item?_nil] at hi
    exact hi rfl
  -- All directories and links were there before the file was written.
  have hkept : v.LeadsTo p q := by
    refine hleads.kept (current_put ..).symm ?_
    intro s j hj hfile
    rw [item?_put v hr] at hj
    split at hj
    · cases hj
      exact absurd rfl (hfile content)
    · exact hj
  rw [LeadsTo, hresolve] at hkept
  simp only [Except.ok.injEq, Prod.mk.injEq] at hkept
  exact hi hkept.2

theorem exists_move_of_rename (h : v.rename p p' = .ok w)
    (hsource : ∀ q, v.find false p ≠ .ok (q, .directory)) :
    w = v ∨ ∃ q i r j, v.find false p = .ok (q, i) ∧ i ≠ .directory ∧
      v.resolve false p' = .ok (r, j) ∧ j ≠ some .directory ∧ q ≠ r ∧
      w = (v.remove q).put r i := by
  rw [rename] at h
  rcases hfind : v.find false p with e | ⟨q, i⟩
  · rw [hfind] at h
    cases h
  have hi : i ≠ .directory := by
    rintro rfl
    exact hsource q hfind
  rw [hfind] at h
  simp only [bind, Except.bind] at h
  rcases hresolve : v.resolve false p' with e | ⟨r, j⟩
  · rw [hresolve] at h
    cases h
  rw [hresolve] at h
  have hmove : j ≠ some .directory ∧
      (if q = r then Except.ok v else .ok ((v.remove q).put r i)) = (.ok w : Except OsError _) := by
    rcases i with _ | _ | _
    · rcases j with _ | _ | _ | _ <;> simp_all [pure, Except.pure]
    · exact absurd rfl hi
    · rcases j with _ | _ | _ | _ <;> simp_all [pure, Except.pure]
  obtain ⟨hj, hw⟩ := hmove
  split at hw
  · cases hw
    exact .inl rfl
  · next hne =>
    cases hw
    exact .inr ⟨q, i, r, j, rfl, hi, rfl, hj, hne, rfl⟩

end CodeGraph.Volume
