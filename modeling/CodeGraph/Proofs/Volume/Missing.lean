import CodeGraph.Proofs.Volume.Unlinked

/-!
# Ways in a volume from which something is gone

Taking things away leaves a volume with fewer items, in which every directory lists fewer names
(`Sparser`, `sparser_removeFile`, `sparser_removeTree`). What is read in such a volume is read in the
fuller one too (`Sparser.readFile`, `Sparser.linkMetadata`), and the names that a directory lists are
some of those that it lists there (`Sparser.readDir`).

A way that is followed in a tree with fewer items ends as it does in the fuller one, or at something that
is missing (`walk_eq_or_missing`). If it is a file that is gone, only the ways to this file end
otherwise (`walk_remove_file`). What is taken away by a name in a directory is what is at the place of this
name (`LeadsTo.eq_of_resolve_join`).
-/

namespace CodeGraph.Volume

open CodeGraph.Path (IsPlain)

variable {u v w : Volume} {p n : String} {q r : List String} {i : Item} {follow : Bool}

/-! ## Volumes with fewer items -/

/-- Every item of the first volume is one of the second, and so is every name that is listed. -/
structure Sparser (w v : Volume) : Prop where
  within : w.Within v
  children : ∀ q, (w.children q).Sublist (v.children q)

theorem Sparser.refl (v : Volume) : v.Sparser v :=
  ⟨.refl v, fun _ => .refl _⟩

theorem Sparser.trans (h₁ : u.Sparser v) (h₂ : v.Sparser w) : u.Sparser w :=
  ⟨h₁.within.trans h₂.within, fun q => (h₁.children q).trans (h₂.children q)⟩

theorem sparser_remove (v : Volume) (q : List String) : (v.remove q).Sparser v := by
  exact ⟨⟨rfl, fun _ _ => item?_of_remove⟩, fun _ => List.filter_sublist.filterMap _⟩

/-! ## Taking away -/

theorem sparser_removeFile (h : v.removeFile p = .ok w) : w.Sparser v := by
  rw [removeFile] at h
  rcases hfind : v.find false p with e | ⟨q, _ | _ | _⟩
  all_goals
    rw [hfind] at h
    cases h
  · exact sparser_remove v q
  · exact sparser_remove v q

theorem sparser_removeTree (h : v.removeTree p = .ok w) : w.Sparser v := by
  rw [removeTree] at h
  rcases hfind : v.find false p with e | ⟨q, _ | _ | _⟩
  all_goals
    rw [hfind] at h
    cases h
  · exact sparser_remove v q
  · exact sparser_remove v q

/-! ## Looking -/

theorem Sparser.readFile (hw : w.Sparser v) {content : ByteArray}
    (h : w.readFile p = .ok content) : v.readFile p = .ok content := by
  rw [Volume.readFile] at h ⊢
  rcases hfind : w.find true p with e | ⟨q, _ | _ | _⟩
  all_goals
    rw [hfind] at h
    cases h
  rw [find_within hw.within hfind]
  rfl

theorem Sparser.linkMetadata (hw : w.Sparser v) {i : Item} (h : w.linkMetadata p = .ok i) :
    v.linkMetadata p = .ok i := by
  rw [Volume.linkMetadata] at h ⊢
  rcases hfind : w.find false p with e | ⟨q, j⟩
  all_goals
    rw [hfind] at h
    cases h
  rw [find_within hw.within hfind]
  rfl

theorem Sparser.readDir (hw : w.Sparser v) {names : List String} (h : w.readDir p = .ok names) :
    ∃ all, v.readDir p = .ok all ∧ names.Sublist all := by
  rw [Volume.readDir] at h ⊢
  rcases hfind : w.find true p with e | ⟨q, _ | _ | _⟩
  all_goals
    rw [hfind] at h
    cases h
  refine ⟨v.children q, ?_, hw.children q⟩
  rw [find_within hw.within hfind]
  rfl

/-! ## Ways with fewer items -/

/-- With fewer items a way ends as it does with more, unless it comes to something that is missing. -/
theorem walk_eq_or_missing (hw : w.Within v) (htree : w.IsTree) {hops : Nat}
    {here names : List String} (hhere : w.item? here = some .directory) :
    w.walk follow hops here names = v.walk follow hops here names ∨
      Missing (w.walk follow hops here names) := by
  fun_induction walk w follow hops here names with
  | case1 hops here =>
    rw [walk, hw.item _ _ hhere, hhere]
    exact .inl rfl
  | case2 hops here m rest hnot => simp [hhere, Item.isDirectory] at hnot
  | case3 hops here m rest _ hm ih =>
    rw [walk_cons_skip (hw.item _ _ hhere) hm]
    exact ih hhere
  | case4 hops here rest _ _ ih =>
    rw [walk_cons_up (hw.item _ _ hhere)]
    exact ih (htree.dropLast hhere)
  | case5 hops here m rest _ hdot hup hlong =>
    exact .inl (walk_cons_long (hw.item _ _ hhere) hdot hup hlong).symm
  | case6 hops here m rest _ _ _ _ there _ _ => exact .inr (.inr ⟨there, rfl⟩)
  | case7 => exact .inr (.inl rfl)
  | case8 hops here m rest _ hdot hup hshort there target hi hstop =>
    obtain ⟨rfl, rfl⟩ := link_ends_iff.1 hstop
    rw [walk_link_end (hw.item _ _ hhere) (isName_of_not hdot hup hshort) (hw.item _ _ hi)]
    exact .inl rfl
  | case9 here m rest _ hdot hup hshort there target hi hgo =>
    exact .inl (walk_link_exhausted (hw.item _ _ hhere) (isName_of_not hdot hup hshort)
      (hw.item _ _ hi) (link_followed_iff.1 hgo)).symm
  | case10 here m rest _ hdot hup hshort there target hi hgo hops ih =>
    rw [Nat.succ_eq_add_one,
      walk_cons_link (hw.item _ _ hhere) (isName_of_not hdot hup hshort) (hw.item _ _ hi)
        (link_followed_iff.1 hgo)]
    refine ih ?_
    split
    · exact w.item?_nil
    · exact hhere
  | case11 hops here m rest _ hdot hup hshort there content hi hrest =>
    rw [walk_cons_file (hw.item _ _ hhere) (isName_of_not hdot hup hshort) (hw.item _ _ hi),
      if_pos hrest]
    exact .inl rfl
  | case12 hops here m rest _ hdot hup hshort there content hi hrest =>
    rw [walk_cons_file (hw.item _ _ hhere) (isName_of_not hdot hup hshort) (hw.item _ _ hi),
      if_neg hrest]
    exact .inl rfl
  | case13 hops here m rest _ hdot hup hshort there hi ih =>
    rw [walk_cons_directory (hw.item _ _ hhere) (isName_of_not hdot hup hshort) (hw.item _ _ hi)]
    exact ih hi

theorem resolve_eq_or_missing (hw : w.Within v) (htree : w.IsTree) (follow : Bool) (p : String) :
    w.resolve follow p = v.resolve follow p ∨ Missing (w.resolve follow p) := by
  rw [resolve, resolve]
  split
  · exact .inl rfl
  split
  · exact .inl rfl
  split
  · exact .inl rfl
  · rw [hw.current]
    exact walk_eq_or_missing hw htree (htree.item?_start p)

theorem find_of_missing (h : Missing (v.resolve follow p)) : v.find follow p = .error .notFound := by
  rw [find]
  rcases h with h | ⟨r, h⟩
  · rw [h]
    rfl
  · rw [h]
    rfl

theorem missing_of_find (h : v.find follow p = .error .notFound) : Missing (v.resolve follow p) := by
  rw [find] at h
  rcases hr : v.resolve follow p with e | ⟨q, _ | i⟩
  all_goals
    rw [hr] at h
    cases h
  · exact .inl rfl
  · exact .inr ⟨q, rfl⟩

/-- What a directory lists when items are gone, if it is not gone itself. -/
theorem LeadsTo.readDir_or_missing (h : v.LeadsTo p q) (hw : w.Within v) (htree : w.IsTree) :
    w.readDir p = .ok (w.children q) ∨ w.readDir p = .error .notFound := by
  rcases resolve_eq_or_missing hw htree true p with heq | hmissing
  · exact .inl (LeadsTo.readDir (heq.trans h))
  · right
    rw [Volume.readDir, find_of_missing hmissing]
    rfl

/-! ## Without one file -/

section File

variable {content : ByteArray} (hv : v.IsTree) (hfile : v.item? r = some (.file content))

include hv hfile

theorem IsTree.item?_remove_file (hne : q ≠ r) : (v.remove r).item? q = v.item? q :=
  hv.item?_remove_other (by simp [hfile]) hne

/-- A way that ends somewhere ends there without the file too, and finds nothing if this is the place of
the file. -/
theorem walk_remove_file {hops : Nat} {here names : List String} {i : Option Item}
    (hhere : v.item? here = some .directory) (h : v.walk follow hops here names = .ok (q, i)) :
    (v.remove r).walk follow hops here names = .ok (q, if q = r then none else i) := by
  have hkept : ∀ s j, v.item? s = some j → (∀ old, j ≠ .file old) →
      (v.remove r).item? s = some j := by
    intro s j hs hj
    rw [hv.item?_remove_file hfile, hs]
    rintro rfl
    rw [hfile] at hs
    exact hj content (Option.some.inj hs).symm
  have hr : r ≠ [] := by
    rintro rfl
    rw [item?_nil] at hfile
    cases hfile
  have hgone : (v.remove r).item? r = none := by
    rw [item?_remove, if_pos ⟨hr, List.isPrefixOf_iff_prefix.2 (List.prefix_refl _)⟩]
  cases Abreast.of_kept hkept hv follow hops here names hhere with
  | same walk =>
    rw [h] at walk
    split
    · next heq =>
      rw [walk, walk_eq_ok walk, heq, hgone]
    · exact walk
  | @parts left there m rest directory name item met walk walk' =>
    have hthere := hkept _ _ directory (by simp)
    rw [walk] at h
    rw [walk']
    obtain ⟨rfl, ⟨rfl, hnone, hrest⟩ | ⟨old, rfl, hitem, rfl⟩⟩ :=
      walk_cons_eq_ok directory name item h
    · have hnone' : (v.remove r).item? (there ++ [m]) = none := by
        rcases hitem : (v.remove r).item? (there ++ [m]) with _ | j
        · rfl
        · exact absurd ((item?_of_remove hitem).symm.trans hnone) (by simp)
      rw [walk_cons_missing hthere name hnone', if_pos hrest, ite_self]
    · split
      · next heq =>
        rw [walk_cons_missing hthere name (heq ▸ hgone)]
        rfl
      · next hne =>
        rw [walk_cons_file hthere name ((hv.item?_remove_file hfile hne).trans hitem)]
        rfl

theorem resolve_remove_file {i : Option Item} (h : v.resolve follow p = .ok (q, i)) :
    (v.remove r).resolve follow p = .ok (q, if q = r then none else i) := by
  obtain ⟨hempty, hend, hlen, hwalk⟩ := walk_of_resolve h
  rw [resolve_eq_walk hempty hend hlen]
  exact walk_remove_file hv hfile (hv.item?_start p) hwalk

theorem IsTree.remove_file : (v.remove r).IsTree :=
  hv.remove (by simp [hfile])

/-- Every path that leads elsewhere goes on leading to what it has led to. -/
theorem toOption_linkMetadata_remove_file (hother : ∀ i, v.resolve false p ≠ .ok (r, i)) :
    ((v.remove r).linkMetadata p).toOption = (v.linkMetadata p).toOption := by
  rcases hfind : v.find false p with e | ⟨q, i⟩
  · rcases hfind' : (v.remove r).find false p with e' | ⟨q, i⟩
    · rw [linkMetadata, linkMetadata, hfind, hfind']
      rfl
    · have hthere := find_within (sparser_remove v r).within hfind'
      rw [hfind] at hthere
      cases hthere
  · have hne : q ≠ r := by
      rintro rfl
      exact hother _ (resolve_of_find hfind)
    rw [linkMetadata, linkMetadata, hfind, find,
      resolve_remove_file hv hfile (resolve_of_find hfind), if_neg hne]
    rfl

end File

/-! ## A file that may be there -/

/-- A path leads to a file with the given bytes, or to nothing. -/
def FileAt (v : Volume) (p : String) (content : Option ByteArray) : Prop :=
  v.linkMetadata p = content.elim (.error .notFound) fun b => .ok (.file b)

/-- The volume without the file that a path leads to, if it leads to one. -/
def dropFile (v : Volume) (p : String) : Volume :=
  match v.find false p with
  | .ok (r, .file _) => v.remove r
  | _ => v

namespace FileAt

variable {b : ByteArray} {content : Option ByteArray}

theorem find (h : v.FileAt p (some b)) : ∃ r, v.find false p = .ok (r, .file b) := by
  rw [FileAt, linkMetadata] at h
  rcases hfind : v.find false p with e | ⟨r, i⟩
  all_goals
    rw [hfind] at h
    cases h
  exact ⟨r, rfl⟩

theorem missing (h : v.FileAt p none) : v.find false p = .error .notFound := by
  rw [FileAt, linkMetadata] at h
  rcases hfind : v.find false p with e | ⟨r, i⟩
  all_goals
    rw [hfind] at h
    cases h
  rfl

theorem of_find (h : v.find false p = .ok (r, .file b)) : v.FileAt p (some b) := by
  rw [FileAt, linkMetadata, h]
  rfl

theorem of_missing (h : Missing (v.resolve false p)) : v.FileAt p none := by
  rw [FileAt, linkMetadata, find_of_missing h]
  rfl

/-- No link is followed on the way to a file. -/
theorem find_true (h : v.FileAt p content) : v.find true p = v.find false p := by
  have hlink : ∀ r target, v.resolve false p ≠ .ok (r, some (.link target)) := by
    intro r target hr
    have hfind : v.find false p = .ok (r, .link target) := by
      rw [Volume.find, hr]
      rfl
    rcases content with _ | b
    · rw [h.missing] at hfind
      cases hfind
    · obtain ⟨r', hfile⟩ := h.find
      rw [hfile] at hfind
      cases hfind
  rw [Volume.find, Volume.find, resolve_eq_of_not_link hlink]

theorem readFile (h : v.FileAt p content) :
    v.readFile p = content.elim (.error .notFound) .ok := by
  rw [Volume.readFile, h.find_true]
  rcases content with _ | b
  · rw [h.missing]
    rfl
  · obtain ⟨r, hfind⟩ := h.find
    rw [hfind]
    rfl

theorem removeFile (h : v.FileAt p content) :
    v.removeFile p = content.elim (.error .notFound) fun _ => .ok (v.dropFile p) := by
  rw [Volume.removeFile, dropFile]
  rcases content with _ | b
  · rw [h.missing]
    rfl
  · obtain ⟨r, hfind⟩ := h.find
    rw [hfind]
    rfl

theorem dropFile_of_none (h : v.FileAt p none) : v.dropFile p = v := by
  rw [dropFile, h.missing]

end FileAt

section Drop

variable {p' : String} {content content' : Option ByteArray}

theorem dropFile_cases (v : Volume) (p : String) :
    v.dropFile p = v ∨ ∃ r b, v.find false p = .ok (r, .file b) ∧ v.dropFile p = v.remove r := by
  rw [dropFile]
  rcases v.find false p with e | ⟨r, b | _ | _⟩
  · exact .inl rfl
  · exact .inr ⟨r, b, rfl, rfl⟩
  · exact .inl rfl
  · exact .inl rfl

theorem within_dropFile (v : Volume) (p : String) : (v.dropFile p).Within v := by
  rcases dropFile_cases v p with h | ⟨r, b, -, h⟩
  · rw [h]
    exact .refl v
  · rw [h]
    exact (sparser_remove v r).within

theorem IsTree.dropFile (hv : v.IsTree) (p : String) : (v.dropFile p).IsTree := by
  rcases dropFile_cases v p with h | ⟨r, b, hfind, h⟩
  · rwa [h]
  · rw [h]
    exact hv.remove_file (item?_of_find hfind)

/-- Nothing is gone but at the place to which the path leads. -/
theorem IsTree.item?_dropFile (hv : v.IsTree) (p : String) (q : List String) :
    (v.dropFile p).item? q = v.item? q ∨ ∃ b, v.find false p = .ok (q, .file b) := by
  rcases dropFile_cases v p with h | ⟨r, b, hfind, h⟩
  · exact .inl (by rw [h])
  · by_cases hq : q = r
    · exact .inr ⟨b, hq ▸ hfind⟩
    · exact .inl (by rw [h, hv.item?_remove_file (item?_of_find hfind) hq])

theorem IsTree.fileAt_dropFile_self (hv : v.IsTree) (h : v.FileAt p content) :
    (v.dropFile p).FileAt p none := by
  rcases content with _ | b
  · rwa [h.dropFile_of_none]
  · obtain ⟨r, hfind⟩ := h.find
    rw [Volume.dropFile, hfind]
    refine .of_missing (.inr ⟨r, ?_⟩)
    rw [resolve_remove_file hv (item?_of_find hfind) (resolve_of_find hfind), if_pos rfl]

/-- What a path leads to stays if the path that is cleared leads elsewhere. -/
theorem IsTree.toOption_linkMetadata_dropFile (hv : v.IsTree)
    (hother : ∀ r i j, v.resolve false p = .ok (r, i) → v.resolve false p' ≠ .ok (r, j)) :
    ((v.dropFile p).linkMetadata p').toOption = (v.linkMetadata p').toOption := by
  rcases dropFile_cases v p with h | ⟨r, b, hfind, h⟩
  · rw [h]
  · rw [h]
    exact toOption_linkMetadata_remove_file hv (item?_of_find hfind)
      fun j => hother r _ j (resolve_of_find hfind)

theorem IsTree.fileAt_dropFile (hv : v.IsTree) (h' : v.FileAt p' content')
    (hother : ∀ r i j, v.resolve false p = .ok (r, i) → v.resolve false p' ≠ .ok (r, j)) :
    (v.dropFile p).FileAt p' content' := by
  rcases content' with _ | b
  · rcases resolve_eq_or_missing (within_dropFile v p) (hv.dropFile p) false p' with
      heq | hmissing
    · refine .of_missing ?_
      rw [heq]
      exact missing_of_find h'.missing
    · exact .of_missing hmissing
  · have hsame := hv.toOption_linkMetadata_dropFile hother
    rw [h'] at hsame
    rw [FileAt]
    rcases hmeta : (v.dropFile p).linkMetadata p' with e | i
    · rw [hmeta] at hsame
      cases hsame
    · rw [hmeta] at hsame
      exact congrArg Except.ok (Option.some.inj hsame)

end Drop

/-! ## Taking away by name -/

/-- What is looked up by a name in a directory is at the place of this name. -/
theorem LeadsTo.eq_of_resolve_join (h : v.LeadsTo p q) (hn : IsPlain n) {i : Option Item}
    (hr : v.resolve false (Path.join p n) = .ok (r, i)) : r = q ++ [n] := by
  obtain ⟨hempty, hend, hlen, -⟩ := walk_of_resolve hr
  obtain ⟨a, hsplit, ha⟩ := Path.exists_split_join (p := p) hn
  obtain ⟨left, hleft⟩ := h.resolve_append (Path.isAbsolute_join h.ne_empty hn) hsplit
    (Path.filter_counts_of_filter_ne_empty ha) (List.cons_ne_nil _ _) hempty hend hlen
  rw [hleft] at hr
  exact eq_of_walk_singleton hn.ne_empty hn.ne_dot hn.ne_up hr

/-- What is at the place of a name in a directory is seen by this name, a link too. -/
theorem LeadsTo.linkMetadata_name (h : v.LeadsTo p q) (hn : IsPlain n)
    (hlen : (Path.join p n).utf8ByteSize ≤ longestPath) (hi : v.item? (q ++ [n]) = some i) :
    v.linkMetadata (Path.join p n) = .ok i := by
  rcases i with b | _ | target
  · exact h.linkMetadata_join hn hlen hi (by simp)
  · exact h.linkMetadata_join hn hlen hi (by simp)
  · obtain ⟨a, hsplit, ha⟩ := Path.exists_split_join (p := p) hn
    obtain ⟨left, hleft⟩ := h.resolve_append (Path.isAbsolute_join h.ne_empty hn) hsplit
      (Path.filter_counts_of_filter_ne_empty ha) (List.cons_ne_nil _ _)
      (Path.join_ne_empty h.ne_empty hn) (Path.unended_join h.ne_empty hn h.unended) hlen
    rw [linkMetadata, find, hleft, walk_link_end h.item? hn.toIsName hi]
    rfl

theorem exists_of_removeFile (h : v.removeFile p = .ok w) :
    ∃ r i, v.find false p = .ok (r, i) ∧ i ≠ .directory ∧ w = v.remove r := by
  rw [removeFile] at h
  rcases hfind : v.find false p with e | ⟨r, _ | _ | _⟩
  all_goals
    rw [hfind] at h
    cases h
  · exact ⟨r, _, rfl, by simp, rfl⟩
  · exact ⟨r, _, rfl, by simp, rfl⟩

theorem exists_of_removeTree (h : v.removeTree p = .ok w) :
    ∃ r i, v.find false p = .ok (r, i) ∧ w = v.remove r := by
  rw [removeTree] at h
  rcases hfind : v.find false p with e | ⟨r, _ | _ | _⟩
  all_goals
    rw [hfind] at h
    cases h
  · exact ⟨r, _, rfl, rfl⟩
  · exact ⟨r, _, rfl, rfl⟩

end CodeGraph.Volume
