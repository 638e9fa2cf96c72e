import CodeGraph.Proofs.Volume.Unlinked

/-!
# Files that are written under another name first

A name that is looked up behind a path is looked up in a directory to which the path leads
(`LeadsTo.of_resolve_join`). So a file that is written in a directory and then moved to another name
in it is read from there as it was written (`readFile_of_rename`), wherever the links of the path go,
if neither of the two names is one of a link.
-/

namespace CodeGraph.Volume

open CodeGraph.Path (IsPlain)

variable {v w : Volume} {d n m : String} {q : List String} {follow : Bool}

/-! ## The directory of a name -/

/-- A way on by one name is a way to a directory, where the name is looked up. -/
theorem exists_of_walk_concat {hops : Nat} {here a : List String} {found : List String × Option Item}
    (hempty : n ≠ "") (hdot : n ≠ ".") (hup : n ≠ "..")
    (h : v.walk follow hops here (a ++ [n]) = .ok found) :
    IsName n ∧ ∃ q, v.walk true hops here a = .ok (q, some .directory) := by
  fun_induction walk v true hops here a with
  | case1 hops here =>
    have hhere : v.item? here = some .directory := by
      refine any_isDirectory_iff.1 (Classical.byContradiction fun hdir => ?_)
      rw [List.nil_append, walk] at h
      simp [hdir] at h
    refine ⟨⟨hempty, hdot, hup, Nat.not_lt.1 fun hlong => ?_⟩, here, by rw [hhere]⟩
    rw [List.nil_append, walk] at h
    simp [hhere, Item.isDirectory, hempty, hdot, hup, hlong] at h
  | case3 hops here m rest hhere hm ih =>
    have hhere := directory_of_not hhere
    rw [List.cons_append, walk_cons_skip hhere hm] at h
    exact ih h
  | case4 hops here rest hhere _ ih =>
    have hhere := directory_of_not hhere
    rw [List.cons_append, walk_cons_up hhere] at h
    exact ih h
  | case10 here m rest hhere hdot' hup' hshort there target hi hgo hops ih =>
    have hhere := directory_of_not hhere
    rw [List.cons_append, Nat.succ_eq_add_one, walk_cons_link hhere
      (isName_of_not hdot' hup' hshort) hi (.inl (by simp)), ← List.append_assoc] at h
    exact ih h
  | case13 hops here m rest hhere hdot' hup' hshort there hi ih =>
    have hhere := directory_of_not hhere
    rw [List.cons_append, walk_cons_directory hhere (isName_of_not hdot' hup' hshort) hi] at h
    exact ih h
  | case8 => simp_all
  -- Nothing is looked up behind anything but a directory.
  | case6 hops here m rest hhere hdot' hup' hshort there hi hrest
  | case7 hops here m rest hhere hdot' hup' hshort there hi hrest =>
    have hhere := directory_of_not hhere
    rw [List.cons_append, walk_cons_missing hhere (isName_of_not hdot' hup' hshort) hi] at h
    simp [hempty] at h
  | case11 hops here m rest hhere hdot' hup' hshort there content hi hrest
  | case12 hops here m rest hhere hdot' hup' hshort there content hi hrest =>
    have hhere := directory_of_not hhere
    rw [List.cons_append, walk_cons_file hhere (isName_of_not hdot' hup' hshort) hi] at h
    simp at h
  | case9 here m rest hhere hdot' hup' hshort there target hi hgo =>
    have hi' : v.item? (here ++ [m]) = some (.link target) := hi
    rw [List.cons_append, walk] at h
    simp [hhere, hdot', hup', hshort, hi'] at h
  | case2 | case5 =>
    rw [List.cons_append, walk] at h
    simp_all

theorem IsSegment.isPlain (hn : IsSegment n) (hshort : n.utf8ByteSize ≤ longestName) : IsPlain n :=
  ⟨⟨hn.ne_empty, hn.ne_dot, hn.ne_up, hshort⟩, hn.unslashed, hn.unended⟩

/-- A path is looked up itself if one is that goes on by a name. -/
theorem Takes.of_join (hd : d ≠ "") (hn : IsSegment n) (h : Takes (Path.join d n)) : Takes d := by
  have hjoin := Path.join_unslashed hd hn.unslashed
  refine ⟨hd, fun hnul => h.unended ?_, Nat.le_trans ?_ h.short⟩
  · rw [hjoin]
    split <;> simp [hnul]
  · rw [hjoin]
    split
    all_goals
      simp only [String.utf8ByteSize_append]
      omega

/-- What is looked up under a name behind a path is looked up in a directory, and the name is not too
long. -/
theorem LeadsTo.of_resolve_join {found : List String × Option Item} (hd : d ≠ "") (hn : IsSegment n)
    (h : v.resolve follow (Path.join d n) = .ok found) :
    IsPlain n ∧ (Path.join d n).utf8ByteSize ≤ longestPath ∧ ∃ q, v.LeadsTo d q := by
  have hslash := hn.unslashed
  obtain ⟨hempty, hend, hlen, hwalk⟩ := walk_of_resolve h
  obtain ⟨a, hsplit, ha⟩ := Path.exists_split_join_unslashed (p := d) hslash
  rw [hsplit, Path.isAbsolute_join_unslashed hd hslash] at hwalk
  obtain ⟨hname, q, hq⟩ := exists_of_walk_concat hn.ne_empty hn.ne_dot hn.ne_up hwalk
  have htakes := Takes.of_join hd hn ⟨hempty, hend, hlen⟩
  refine ⟨⟨hname, hslash, hn.unended⟩, hlen, q, ?_⟩
  rw [LeadsTo, resolve_eq_walk hd htakes.unended htakes.short]
  exact walk_of_filter_eq hq _ (Path.filter_counts_of_filter_ne_empty ha).symm

/-- What is listed is a directory that the path leads to. -/
theorem leadsTo_of_readDir {names : List String} (h : v.readDir d = .ok names) :
    ∃ q, v.LeadsTo d q ∧ names = v.children q := by
  rw [readDir] at h
  rcases hfind : v.find true d with e | ⟨q, _ | _ | _⟩
  all_goals
    rw [hfind] at h
    cases h
  exact ⟨q, resolve_of_find hfind, rfl⟩

/-! ## Writing and moving -/

/-- What is written is written over nothing but a file, unless it is written where a link leads. -/
theorem exists_of_writeFile_join {content : ByteArray} (hd : d ≠ "") (hn : IsSegment n)
    (hlink : ∀ q target, v.item? (q ++ [n]) ≠ some (.link target))
    (h : v.writeFile (Path.join d n) content = .ok w) :
    IsPlain n ∧ (Path.join d n).utf8ByteSize ≤ longestPath ∧ ∃ q, v.LeadsTo d q ∧
      v.item? (q ++ [n]) ≠ some .directory ∧ w = v.put (q ++ [n]) (.file content) := by
  rw [writeFile] at h
  obtain ⟨found, hfound⟩ : ∃ found, v.resolve true (Path.join d n) = .ok found := by
    rcases hr : v.resolve true (Path.join d n) with e | found
    · rw [hr] at h
      cases h
    · exact ⟨found, rfl⟩
  obtain ⟨hplain, hlen, q, hq⟩ := LeadsTo.of_resolve_join hd hn hfound
  have hdir : v.item? (q ++ [n]) ≠ some .directory := by
    intro hdir
    rw [hq.resolve_join hplain hlen (hlink q), hdir] at h
    cases h
  have hfile : ∀ i, v.item? (q ++ [n]) = some i → ∃ old, i = .file old := by
    intro i hi
    rcases i with old | _ | target
    · exact ⟨old, rfl⟩
    · exact absurd hi hdir
    · exact absurd hi (hlink q target)
  refine ⟨hplain, hlen, q, hq, hdir, ?_⟩
  rw [← writeFile, hq.writeFile_join hplain hlen hfile] at h
  exact (Except.ok.inj h).symm

/-- What is moved to another name in its directory replaces nothing but a file, unless the name is
that of a link. -/
theorem exists_of_rename_join {content : ByteArray} (hv : v.IsTree) (hq : v.LeadsTo d q)
    (hn : IsPlain n) (hlen : (Path.join d n).utf8ByteSize ≤ longestPath) (hm : IsSegment m)
    (hne : n ≠ m) (hlink : ∀ target, v.item? (q ++ [m]) ≠ some (.link target))
    (hi : v.item? (q ++ [n]) = some (.file content))
    (h : v.rename (Path.join d n) (Path.join d m) = .ok w) :
    IsPlain m ∧ (Path.join d m).utf8ByteSize ≤ longestPath ∧ w.LeadsTo d q ∧
      w.item? (q ++ [m]) = some (.file content) := by
  have hrename := h
  rw [rename, hq.find_join hn hlen hi (by simp)] at hrename
  obtain ⟨found, hfound⟩ : ∃ found, v.resolve false (Path.join d m) = .ok found := by
    rcases hr : v.resolve false (Path.join d m) with e | found
    · simp only [bind, Except.bind, hr] at hrename
      cases hrename
    · exact ⟨found, rfl⟩
  obtain ⟨hplain, hlen', -⟩ := LeadsTo.of_resolve_join hq.ne_empty hm hfound
  have hfile : ∀ i, v.item? (q ++ [m]) = some i → ∃ old, i = .file old := by
    intro i hi'
    rcases i with old | _ | target
    · exact ⟨old, rfl⟩
    · simp only [bind, Except.bind, hq.resolve_join hplain hlen' hlink, hi'] at hrename
      cases hrename
    · exact absurd hi' (hlink target)
  obtain rfl : _ = w :=
    Except.ok.inj ((hq.rename_join hn hlen hplain hlen' hne hi hfile).symm.trans h)
  have hsource : ∀ j, v.item? (q ++ [n]) = some j → ∃ old, j = .file old := fun j hj =>
    ⟨content, Option.some.inj (hj.symm.trans hi)⟩
  refine ⟨hplain, hlen', (hq.remove hv hsource).put (fun j hj => hfile j (item?_of_remove hj)) _, ?_⟩
  rw [item?_put _ (by simp), if_pos rfl]

/-- A file that was written in a directory under one name and moved to another one is read from there,
unless one of the names is that of a link. -/
theorem readFile_of_rename {v₁ v₂ v₃ : Volume} {content : ByteArray} (hv : v.IsTree) (hd : d ≠ "")
    (hn : IsSegment n) (hm : IsSegment m) (hne : n ≠ m)
    (hlink : ∀ q target, v.item? (q ++ [n]) ≠ some (.link target))
    (hlink' : ∀ q target, v.item? (q ++ [m]) ≠ some (.link target)) (hmake : v.makeDirs d = .ok v₁)
    (hwrite : v₁.writeFile (Path.join d n) content = .ok v₂)
    (hrename : v₂.rename (Path.join d n) (Path.join d m) = .ok v₃) :
    v₃.readFile (Path.join d m) = .ok content := by
  have hv₁ := hv.makeDirs hmake
  have hlink₁ : ∀ {x : String}, (∀ q target, v.item? (q ++ [x]) ≠ some (.link target)) →
      ∀ q target, v₁.item? (q ++ [x]) ≠ some (.link target) := by
    intro x hx q target hi
    rcases item?_of_makeDirs hmake hi with hi | hi
    · exact hx q target hi
    · cases hi
  obtain ⟨hplain, hlen, q, hq, hdir, rfl⟩ := exists_of_writeFile_join hd hn (hlink₁ hlink) hwrite
  have hv₂ := hv₁.put (i := .file content) hq.item? hdir
  have hitem := item?_put v₁ (p := q ++ [n]) (by simp) (.file content)
  have hq₂ : (v₁.put (q ++ [n]) (.file content)).LeadsTo d q := by
    refine hq.kept (current_put ..) fun s i hs hi => ?_
    rw [hitem, if_neg, hs]
    rintro rfl
    rcases i with old | _ | target
    · exact hi old rfl
    · exact hdir hs
    · exact hlink₁ hlink q target hs
  have hm₂ : ∀ target,
      (v₁.put (q ++ [n]) (.file content)).item? (q ++ [m]) ≠ some (.link target) := by
    intro target
    rw [hitem, if_neg (by simpa using hne.symm)]
    exact hlink₁ hlink' q target
  obtain ⟨hplain', hlen', hq₃, hi₃⟩ :=
    exists_of_rename_join hv₂ hq₂ hplain hlen hm hne hm₂ (by rw [hitem, if_pos rfl]) hrename
  exact hq₃.readFile_join hplain' hlen' hi₃

/-! ## What a publication leaves -/

/-- The volume on which a file was written in a directory under one name and moved to another. -/
def published (v : Volume) (q : List String) (n m : String) (content : ByteArray) : Volume :=
  ((v.put (q ++ [n]) (.file content)).remove (q ++ [n])).put (q ++ [m]) (.file content)

theorem item?_published (v : Volume) (q : List String) (n m : String) (content : ByteArray)
    (s : String) : (v.published q n m content).item? (q ++ [s]) =
      if s = m then some (.file content) else if s = n then none else v.item? (q ++ [s]) := by
  rw [published, item?_put _ (by simp), item?_remove, item?_put _ (by simp)]
  by_cases hsm : s = m
  · simp [hsm]
  by_cases hsn : s = n
  · simp [hsn]
  · simp [hsm, hsn, Ne.symm hsn]

theorem nodup_children_published (n m : String) (content : ByteArray) (h : (v.children q).Nodup) :
    ((v.published q n m content).children q).Nodup :=
  nodup_children_put (by simp) _ (nodup_children_remove _ (nodup_children_put (by simp) _ h))

section Published

variable {content : ByteArray} (hv : v.IsTree) (hq : v.LeadsTo d q)
  (hn : ∀ i, v.item? (q ++ [n]) = some i → ∃ old, i = .file old)
  (hm : ∀ i, v.item? (q ++ [m]) = some i → ∃ old, i = .file old)

include hn in
theorem ne_directory_of_file : v.item? (q ++ [n]) ≠ some .directory := by
  intro hdir
  obtain ⟨old, hold⟩ := hn _ hdir
  cases hold

include hm in
/-- Where the file is moved to there is nothing or a file, also after it was written. -/
theorem exists_file_of_written : ∀ i,
    ((v.put (q ++ [n]) (.file content)).remove (q ++ [n])).item? (q ++ [m]) = some i →
      ∃ old, i = .file old := by
  intro i hi
  have hi' := item?_of_remove hi
  rw [item?_put _ (by simp)] at hi'
  split at hi'
  · exact ⟨content, (Option.some.inj hi').symm⟩
  · exact hm i hi'

include hv hq hn

theorem tree_of_written : (v.put (q ++ [n]) (.file content)).IsTree :=
  hv.put hq.item? (ne_directory_of_file hn)

include hm

theorem IsTree.published : (v.published q n m content).IsTree := by
  have hwritten := item?_put v (p := q ++ [n]) (by simp) (.file content) (q ++ [n])
  refine IsTree.put ((tree_of_written hv hq hn).remove (by simp [hwritten])) ?_
    (ne_directory_of_file (exists_file_of_written hm))
  exact (hv.put hq.item? (ne_directory_of_file hn)).directory_remove (by simp [hwritten])
    (hv.directory_put (ne_directory_of_file hn) hq.item? _)

theorem LeadsTo.published : (v.published q n m content).LeadsTo d q := by
  have hwritten := item?_put v (p := q ++ [n]) (by simp) (.file content) (q ++ [n])
  refine ((hq.put hn _).remove (tree_of_written hv hq hn) fun i hi => ?_).put
    (exists_file_of_written hm) _
  rw [hwritten, if_pos rfl] at hi
  exact ⟨content, (Option.some.inj hi).symm⟩

end Published

/-- Writing a file and moving it to another name in its directory succeed. -/
theorem LeadsTo.publish (hq : v.LeadsTo d q) (content : ByteArray)
    (hn : ∀ i, v.item? (q ++ [n]) = some i → ∃ old, i = .file old)
    (hm : ∀ i, v.item? (q ++ [m]) = some i → ∃ old, i = .file old) (hname : IsPlain n)
    (hlen : (Path.join d n).utf8ByteSize ≤ longestPath) (hname' : IsPlain m)
    (hlen' : (Path.join d m).utf8ByteSize ≤ longestPath) (hne : n ≠ m) :
    v.writeFile (Path.join d n) content = .ok (v.put (q ++ [n]) (.file content)) ∧
      (v.put (q ++ [n]) (.file content)).rename (Path.join d n) (Path.join d m) =
        .ok (v.published q n m content) := by
  have hitem := item?_put v (p := q ++ [n]) (by simp) (.file content)
  refine ⟨hq.writeFile_join hname hlen hn, (hq.put hn _).rename_join hname hlen hname' hlen' hne
    (by rw [hitem, if_pos rfl]) fun i hi => ?_⟩
  rw [hitem, if_neg (by simpa using hne.symm)] at hi
  exact hm i hi

end CodeGraph.Volume
