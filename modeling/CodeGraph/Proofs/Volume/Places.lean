import CodeGraph.Proofs.Volume.Spelling

/-!
# Operations inside a directory

What a path leads to inside a directory is what the volume has there, under any spelling of the path
to the directory (`LeadsTo.resolve_join`). From this each operation on a file in a directory is a
change of one item: `LeadsTo.readFile_join`, `LeadsTo.writeFile_join`, `LeadsTo.removeFile_join`,
`LeadsTo.removeTree_join`, `LeadsTo.rename_join`. Nothing is found in a directory that is missing
(`resolve_join_join_missing`). Making the directories of a path adds directories where nothing was
(`within_makeDirs`), and the last one is the only one that is added if those above are there
(`LeadsTo.makeDirs_join`).
-/

namespace CodeGraph.Volume

open CodeGraph.Path (IsPlain)

/-- A path leads to a directory. -/
def LeadsTo (v : Volume) (p : String) (q : List String) : Prop :=
  v.resolve true p = .ok (q, some .directory)

/-- The names of a path without those that do not count, a slash at the start kept. -/
def rootedParts (p : String) : List String :=
  (if Path.isAbsolute p then [""] else []) ++ Path.parts p

theorem filter_counts_rooted_parts (p : String) :
    (rootedParts p).filter counts = (Path.split p).filter counts := by
  have hskip : counts "" = false := by decide
  rw [rootedParts, List.filter_append, Path.filter_counts_parts]
  split <;> simp [hskip]

/-- The path written out from the parts of a path. -/
theorem spelling_parts {p : String} (hparts : Path.parts p ≠ []) (hend : '\x00' ∉ p.toList) :
    let p' := Path.ofParts (Path.isAbsolute p) (Path.parts p)
    p' ≠ "" ∧ '\x00' ∉ p'.toList ∧ p'.utf8ByteSize ≤ p.utf8ByteSize ∧
      Path.isAbsolute p' = Path.isAbsolute p ∧ Path.split p' = rootedParts p := by
  have hslash : ∀ m ∈ Path.parts p, '/' ∉ m.toList := fun m hm =>
    Path.unslashed_of_mem_split (Path.mem_split_of_mem_parts hm)
  have habs := Path.isAbsolute_ofParts (Path.isAbsolute p) hparts
    (fun m hm => Path.ne_empty_of_mem_parts hm) hslash
  have hsplit := Path.split_ofParts (Path.isAbsolute p) hparts hslash
  refine ⟨fun heq => ?_, Path.unended_ofParts hend, Path.utf8ByteSize_ofParts_le hparts, habs, hsplit⟩
  obtain ⟨front, n, hlast⟩ := (List.eq_nil_or_concat (Path.parts p)).resolve_left hparts
  rw [heq, Path.split_unslashed (n := "") (by decide), hlast, List.concat_eq_append,
    ← List.append_assoc] at hsplit
  have hempty := congrArg List.getLast? hsplit
  simp only [List.getLast?_singleton, List.getLast?_concat, Option.some.injEq] at hempty
  exact Path.ne_empty_of_mem_parts (p := p) (by simp [hlast]) hempty.symm

/-- The path written out from the parts of a joined path. -/
theorem spelling_ofParts {p n : String} (hp : p ≠ "") (hp' : '\x00' ∉ p.toList)
    (hn : IsPlain n) :
    let p' := Path.ofParts (Path.isAbsolute p) (Path.parts p ++ [n])
    p' ≠ "" ∧ '\x00' ∉ p'.toList ∧ p'.utf8ByteSize ≤ (Path.join p n).utf8ByteSize ∧
      Path.isAbsolute p' = Path.isAbsolute p ∧ Path.split p' = rootedParts p ++ [n] := by
  have hparts := Path.parts_join hp hn
  have hjoin := spelling_parts (p := Path.join p n) (by simp [hparts])
    (Path.unended_join hp hn hp')
  rw [rootedParts, Path.isAbsolute_join hp hn, hparts, ← List.append_assoc] at hjoin
  exact hjoin

section Resolve

variable {v : Volume} {p p' n : String} {q : List String}

theorem resolve_eq_walk (hempty : p ≠ "") (hend : '\x00' ∉ p.toList)
    (hlen : p.utf8ByteSize ≤ longestPath) (follow : Bool) :
    v.resolve follow p =
      v.walk follow 40 (if Path.isAbsolute p then [] else v.current) (Path.split p) := by
  rw [resolve, if_neg hempty, if_neg (by simpa using hend), if_neg (Nat.not_lt.2 hlen)]

/-- A path that is looked up: neither empty nor too long, and without a zero character. -/
structure Takes (p : String) : Prop where
  ne_empty : p ≠ ""
  unended : '\x00' ∉ p.toList
  short : p.utf8ByteSize ≤ longestPath

/-- A path that is not looked up leads to the same error on every volume. -/
theorem exists_resolve_error (hp : ¬ Takes p) :
    ∃ e, ∀ (v : Volume) (follow : Bool), v.resolve follow p = .error e := by
  by_cases hempty : p = ""
  · exact ⟨_, fun v follow => if_pos hempty⟩
  by_cases hend : p.toList.contains '\x00'
  · exact ⟨_, fun v follow => (if_neg hempty).trans (if_pos hend)⟩
  refine ⟨_, fun v follow => (if_neg hempty).trans ((if_neg hend).trans (if_pos ?_))⟩
  exact Nat.lt_of_not_le fun hlen => hp ⟨hempty, by simpa using hend, hlen⟩

theorem resolve_of_not_takes (hp : ¬ Takes p) (v w : Volume) (follow : Bool) :
    v.resolve follow p = w.resolve follow p := by
  obtain ⟨e, he⟩ := exists_resolve_error hp
  rw [he, he]

theorem resolve_eq_ok {follow : Bool} {i : Option Item} (h : v.resolve follow p = .ok (q, i)) :
    i = v.item? q := by
  rw [resolve] at h
  split at h
  · cases h
  split at h
  · cases h
  split at h
  · cases h
  exact walk_eq_ok h

theorem LeadsTo.ne_empty (h : v.LeadsTo p q) : p ≠ "" := by
  rintro rfl
  simp [LeadsTo, resolve] at h

theorem LeadsTo.unended (h : v.LeadsTo p q) : '\x00' ∉ p.toList := by
  intro hmem
  have hresolve := h
  rw [LeadsTo, resolve, if_neg h.ne_empty, if_pos (by simpa using hmem)] at hresolve
  simp at hresolve

theorem LeadsTo.short (h : v.LeadsTo p q) : p.utf8ByteSize ≤ longestPath := by
  refine Nat.not_lt.1 fun hlong => ?_
  have hresolve := h
  rw [LeadsTo, resolve, if_neg h.ne_empty, if_neg (by simpa using h.unended),
    if_pos hlong] at hresolve
  simp at hresolve

theorem LeadsTo.walk (h : v.LeadsTo p q) :
    v.walk true 40 (if Path.isAbsolute p then [] else v.current) (Path.split p) =
      .ok (q, some .directory) := by
  rw [← resolve_eq_walk h.ne_empty h.unended h.short]
  exact h

theorem LeadsTo.item? (h : v.LeadsTo p q) : v.item? q = some .directory :=
  (walk_eq_ok h.walk).symm

/-- A path leads to one directory. -/
theorem LeadsTo.unique {q' : List String} (h : v.LeadsTo p q) (h' : v.LeadsTo p q') : q = q' := by
  rw [LeadsTo, h] at h'
  simpa using h'

theorem LeadsTo.within {w : Volume} (h : v.LeadsTo p q) (hw : v.Within w) : w.LeadsTo p q := by
  rw [LeadsTo, resolve_eq_walk h.ne_empty h.unended h.short, hw.current]
  exact walk_within hw h.walk

/-- What a path leads to it leads to in every volume with more items. -/
theorem find_within {w : Volume} (hw : v.Within w) {follow : Bool} {i : Item}
    (h : v.find follow p = .ok (q, i)) : w.find follow p = .ok (q, i) := by
  have hresolve : v.resolve follow p = .ok (q, some i) := by
    rw [find] at h
    rcases hr : v.resolve follow p with e | ⟨r, _ | j⟩
    · rw [hr] at h
      cases h
    · rw [hr] at h
      cases h
    · rw [hr] at h
      cases h
      rfl
  have hresolve' : w.resolve follow p = .ok (q, some i) := by
    rw [resolve] at hresolve ⊢
    split at hresolve
    · cases hresolve
    split at hresolve
    · cases hresolve
    split at hresolve
    · cases hresolve
    next hempty hend hlen =>
    rw [if_neg hempty, if_neg hend, if_neg hlen, hw.current]
    exact walk_within hw hresolve
  rw [find, hresolve']
  rfl

/-- A path that goes on behind one to a directory goes on from the directory, also where only files have
changed. -/
theorem LeadsTo.resolve_append_kept (h : v.LeadsTo p q)
    (habs : Path.isAbsolute p' = Path.isAbsolute p) {a b : List String}
    (hsplit : Path.split p' = a ++ b) (ha : a.filter counts = (Path.split p).filter counts)
    (hb : b ≠ []) (hempty : p' ≠ "") (hend : '\x00' ∉ p'.toList)
    (hlen : p'.utf8ByteSize ≤ longestPath) :
    ∃ left, ∀ w : Volume, w.current = v.current → (∀ s i, v.item? s = some i →
      (∀ content, i ≠ .file content) → w.item? s = some i) →
        ∀ follow, w.resolve follow p' = w.walk follow left q b := by
  obtain ⟨left, hleft⟩ := walk_append_kept (walk_of_filter_eq h.walk a ha)
  refine ⟨left, fun w hcurrent hw follow => ?_⟩
  rw [resolve_eq_walk hempty hend hlen, habs, hsplit, hcurrent]
  exact hleft w hw follow b hb

theorem LeadsTo.resolve_append (h : v.LeadsTo p q)
    (habs : Path.isAbsolute p' = Path.isAbsolute p) {a b : List String}
    (hsplit : Path.split p' = a ++ b) (ha : a.filter counts = (Path.split p).filter counts)
    (hb : b ≠ []) (hempty : p' ≠ "") (hend : '\x00' ∉ p'.toList)
    (hlen : p'.utf8ByteSize ≤ longestPath) :
    ∃ left, ∀ follow, v.resolve follow p' = v.walk follow left q b := by
  obtain ⟨left, hleft⟩ := h.resolve_append_kept habs hsplit ha hb hempty hend hlen
  exact ⟨left, hleft v rfl fun _ _ hi _ => hi⟩

theorem LeadsTo.ofParts (h : v.LeadsTo p q) (hparts : Path.parts p ≠ []) :
    v.LeadsTo (Path.ofParts (Path.isAbsolute p) (Path.parts p)) q := by
  obtain ⟨hempty, hend, hle, habs, hsplit⟩ := spelling_parts hparts h.unended
  rw [LeadsTo, resolve_eq_walk hempty hend (Nat.le_trans hle h.short), habs, hsplit]
  exact walk_of_filter_eq h.walk _ (filter_counts_rooted_parts p)

/-- One name leads from a directory to what the volume has there, unless that is a link. -/
theorem walk_singleton (hq : v.item? q = some .directory) (hn : IsName n)
    (hi : ∀ target, v.item? (q ++ [n]) ≠ some (.link target)) (follow : Bool) (left : Nat) :
    v.walk follow left q [n] = .ok (q ++ [n], v.item? (q ++ [n])) := by
  rcases hitem : v.item? (q ++ [n]) with _ | (content | _ | target)
  · rw [walk_cons_missing hq hn hitem]
    rfl
  · rw [walk_cons_file hq hn hitem]
    rfl
  · rw [walk_cons_directory hq hn hitem, walk, hitem]
  · exact absurd hitem (hi target)

/-- The name of a directory that is where relative paths start stands for it. -/
theorem resolve_name (hcurrent : v.current = []) (hn : IsPlain n)
    (hi : v.item? [n] = some .directory) (follow : Bool) :
    v.resolve follow n = .ok ([n], some .directory) := by
  have hshort : n.utf8ByteSize ≤ 255 := hn.short
  have hitem : v.item? ([] ++ [n]) = some .directory := hi
  rw [resolve_eq_walk hn.ne_empty hn.unended (Nat.le_trans hshort (by decide)),
    Path.isAbsolute_of_unslashed hn.unslashed, Path.split_unslashed hn.unslashed, hcurrent]
  simp only [Bool.false_eq_true, if_false]
  rw [walk_cons_directory (item?_nil _) hn.toIsName hitem, Volume.walk]
  exact congrArg (fun i => Except.ok ([n], i)) hitem

theorem leadsTo_name (hcurrent : v.current = []) (hn : IsPlain n)
    (hi : v.item? [n] = some .directory) : v.LeadsTo n [n] :=
  resolve_name hcurrent hn hi true

/-- The name of a link that is where relative paths start stands for it, and for what it leads to where
it is followed. -/
theorem resolve_name_link {target : String} (hcurrent : v.current = []) (hn : IsPlain n)
    (hlink : v.item? [n] = some (.link target)) :
    v.resolve false n = .ok ([n], some (.link target)) ∧
      v.resolve true n = v.walk true 39 [] (Path.split target) := by
  have hshort : n.utf8ByteSize ≤ 255 := hn.short
  have hitem : v.item? ([] ++ [n]) = some (.link target) := hlink
  have hresolve : ∀ follow, v.resolve follow n = v.walk follow 40 [] [n] := fun follow => by
    rw [resolve_eq_walk hn.ne_empty hn.unended (Nat.le_trans hshort (by decide)),
      Path.isAbsolute_of_unslashed hn.unslashed, Path.split_unslashed hn.unslashed, hcurrent]
    rfl
  constructor
  · rw [hresolve, walk_link_end (item?_nil _) hn.toIsName hitem, List.nil_append]
  · rw [hresolve, walk_cons_link (item?_nil _) hn.toIsName hitem (.inr rfl), ite_self,
      List.append_nil]

/-- Behind the name of such a directory a link is followed that is in it. -/
theorem resolve_join_link {d target : String} (hcurrent : v.current = []) (hd : IsPlain d)
    (hn : IsPlain n) (hdir : v.item? [d] = some .directory)
    (hlink : v.item? [d, n] = some (.link target)) :
    v.resolve true (Path.join d n) =
      v.walk true 39 (if Path.isAbsolute target then [] else [d]) (Path.split target) := by
  have hjoin : Path.join d n = d ++ "/" ++ n := by
    rw [Path.join_plain hd.ne_empty hn, if_neg fun hlast => hd.unslashed (List.mem_of_getLast? hlast)]
  have hsplit : Path.split (Path.join d n) = [d, n] := by
    rw [hjoin, Path.split_append_slash, Path.split_unslashed hd.unslashed,
      Path.split_unslashed hn.unslashed]
    rfl
  have hlen : (Path.join d n).utf8ByteSize ≤ longestPath := by
    have hle := Path.utf8ByteSize_join_le hd.ne_empty hn
    have hshort : d.utf8ByteSize ≤ 255 := hd.short
    have hshort' : n.utf8ByteSize ≤ 255 := hn.short
    have hlongest : longestPath = 4095 := rfl
    omega
  rw [resolve_eq_walk (Path.join_ne_empty hd.ne_empty hn)
    (Path.unended_join hd.ne_empty hn hd.unended) hlen, Path.isAbsolute_join hd.ne_empty hn,
    Path.isAbsolute_of_unslashed hd.unslashed, hsplit, hcurrent]
  have hdir' : v.item? ([] ++ [d]) = some .directory := hdir
  rw [if_neg Bool.false_ne_true, walk_cons_directory (item?_nil _) hd.toIsName hdir', List.nil_append,
    walk_cons_link hdir hn.toIsName hlink (.inr rfl), List.append_nil]

variable (h : v.LeadsTo p q) (hn : IsPlain n)

include h hn

theorem LeadsTo.resolve_join (hlen : (Path.join p n).utf8ByteSize ≤ longestPath)
    (hi : ∀ target, v.item? (q ++ [n]) ≠ some (.link target)) (follow : Bool) :
    v.resolve follow (Path.join p n) = .ok (q ++ [n], v.item? (q ++ [n])) := by
  obtain ⟨a, hsplit, ha⟩ := Path.exists_split_join (p := p) hn
  obtain ⟨left, hleft⟩ := h.resolve_append (Path.isAbsolute_join h.ne_empty hn) hsplit
    (Path.filter_counts_of_filter_ne_empty ha) (List.cons_ne_nil _ _)
    (Path.join_ne_empty h.ne_empty hn) (Path.unended_join h.ne_empty hn h.unended) hlen
  rw [hleft, walk_singleton h.item? hn.toIsName hi]

/-- What the path leads to that is written out from the parts of a joined one. -/
theorem LeadsTo.resolve_ofParts (hlen : (Path.join p n).utf8ByteSize ≤ longestPath)
    (hi : ∀ target, v.item? (q ++ [n]) ≠ some (.link target)) (follow : Bool) :
    v.resolve follow (Path.ofParts (Path.isAbsolute p) (Path.parts p ++ [n])) =
      .ok (q ++ [n], v.item? (q ++ [n])) := by
  obtain ⟨hempty, hend, hle, habs, hsplit⟩ := spelling_ofParts h.ne_empty h.unended hn
  obtain ⟨left, hleft⟩ := h.resolve_append habs hsplit (filter_counts_rooted_parts p)
    (List.cons_ne_nil _ _) hempty hend (Nat.le_trans hle hlen)
  rw [hleft, walk_singleton h.item? hn.toIsName hi]

theorem LeadsTo.join (hlen : (Path.join p n).utf8ByteSize ≤ longestPath)
    (hi : v.item? (q ++ [n]) = some .directory) : v.LeadsTo (Path.join p n) (q ++ [n]) := by
  rw [LeadsTo, h.resolve_join hn hlen (by simp [hi]), hi]

omit hn in
/-- Nothing is found in a directory that is not there. -/
theorem LeadsTo.resolve_join_join {s : String} (hs : IsPlain s) (hn : IsPlain n)
    (hlen : (Path.join (Path.join p s) n).utf8ByteSize ≤ longestPath)
    (hi : v.item? (q ++ [s]) = none) (follow : Bool) :
    v.resolve follow (Path.join (Path.join p s) n) = .error .notFound := by
  have hempty := Path.join_ne_empty h.ne_empty hs
  have habs := (Path.isAbsolute_join hempty hn).trans (Path.isAbsolute_join h.ne_empty hs)
  obtain ⟨a, hsplit, ha⟩ := Path.exists_split_join (p := p) hs
  have hsplit' : Path.split (Path.join (Path.join p s) n) = a ++ [s, n] := by
    rw [Path.join_join h.ne_empty hs hn, Path.split_append_slash, hsplit,
      Path.split_unslashed hn.unslashed, List.append_assoc]
    rfl
  obtain ⟨left, hleft⟩ := h.resolve_append habs hsplit' (Path.filter_counts_of_filter_ne_empty ha)
    (List.cons_ne_nil _ _) (Path.join_ne_empty hempty hn)
    (Path.unended_join hempty hn (Path.unended_join h.ne_empty hs h.unended)) hlen
  rw [hleft, walk_cons_missing h.item? hs.toIsName hi, if_neg (by simp [hn.ne_empty])]

end Resolve

/-! ## Files in a directory -/

section Files

variable {v : Volume} {p n : String} {q : List String} {content : ByteArray}

theorem LeadsTo.readDir (h : v.LeadsTo p q) : v.readDir p = .ok (v.children q) := by
  have hresolve : v.resolve true p = .ok (q, some .directory) := h
  rw [Volume.readDir, find, hresolve]
  rfl

variable (h : v.LeadsTo p q) (hn : IsPlain n)
  (hlen : (Path.join p n).utf8ByteSize ≤ longestPath)

include h hn hlen

theorem LeadsTo.find_join {i : Item} (hi : v.item? (q ++ [n]) = some i)
    (hlink : ∀ target, i ≠ .link target) (follow : Bool) :
    v.find follow (Path.join p n) = .ok (q ++ [n], i) := by
  have hlink' : ∀ target, v.item? (q ++ [n]) ≠ some (.link target) := by
    simpa [hi] using hlink
  rw [find, h.resolve_join hn hlen hlink', hi]
  rfl

theorem LeadsTo.find_join_missing (hi : v.item? (q ++ [n]) = none) (follow : Bool) :
    v.find follow (Path.join p n) = .error .notFound := by
  rw [find, h.resolve_join hn hlen (by simp [hi]), hi]
  rfl

theorem LeadsTo.readFile_join (hi : v.item? (q ++ [n]) = some (.file content)) :
    v.readFile (Path.join p n) = .ok content := by
  rw [readFile, h.find_join hn hlen hi (by simp)]
  rfl

theorem LeadsTo.linkMetadata_join {i : Item} (hi : v.item? (q ++ [n]) = some i)
    (hlink : ∀ target, i ≠ .link target) : v.linkMetadata (Path.join p n) = .ok i := by
  rw [linkMetadata, h.find_join hn hlen hi hlink]
  rfl

theorem LeadsTo.removeFile_join (hi : v.item? (q ++ [n]) = some (.file content)) :
    v.removeFile (Path.join p n) = .ok (v.remove (q ++ [n])) := by
  rw [removeFile, h.find_join hn hlen hi (by simp)]
  rfl

theorem LeadsTo.removeTree_join (hi : v.item? (q ++ [n]) = some .directory) :
    v.removeTree (Path.join p n) = .ok (v.remove (q ++ [n])) := by
  rw [removeTree, h.find_join hn hlen hi (by simp)]
  rfl

theorem LeadsTo.writeFile_join (hi : ∀ i, v.item? (q ++ [n]) = some i → ∃ old, i = .file old) :
    v.writeFile (Path.join p n) content = .ok (v.put (q ++ [n]) (.file content)) := by
  have hlink : ∀ target, v.item? (q ++ [n]) ≠ some (.link target) := fun target hi' => by
    obtain ⟨_, h⟩ := hi _ hi'
    cases h
  rw [writeFile, h.resolve_join hn hlen hlink]
  rcases hitem : v.item? (q ++ [n]) with _ | i
  · have hne : q ++ [n] ≠ [] := by simp
    have hi' : (v.put (q ++ [n]) (.file content)).item? (q ++ [n]) = some (.file content) := by
      rw [item?_put v hne, if_pos rfl]
    have hthere : (v.put (q ++ [n]) (.file content)).fileExists (Path.join p n) = true := by
      rw [fileExists, metadata, (h.within (within_put hne hitem)).find_join hn hlen hi' (by simp)]
      rfl
    simp only [bind, Except.bind, hthere]
    rfl
  · obtain ⟨old, rfl⟩ := hi i hitem
    rfl

theorem LeadsTo.rename_join {m : String} (hm : IsPlain m)
    (hlen' : (Path.join p m).utf8ByteSize ≤ longestPath) (hne : n ≠ m)
    (hi : v.item? (q ++ [n]) = some (.file content))
    (hi' : ∀ i, v.item? (q ++ [m]) = some i → ∃ old, i = .file old) :
    v.rename (Path.join p n) (Path.join p m) =
      .ok ((v.remove (q ++ [n])).put (q ++ [m]) (.file content)) := by
  have hlink : ∀ target, v.item? (q ++ [m]) ≠ some (.link target) := fun target hi'' => by
    obtain ⟨_, h⟩ := hi' _ hi''
    cases h
  have hne' : q ++ [n] ≠ q ++ [m] := by simpa using hne
  rw [rename, h.find_join hn hlen hi (by simp)]
  simp only [bind, Except.bind]
  rw [h.resolve_join hm hlen' hlink]
  rcases hitem : v.item? (q ++ [m]) with _ | i
  · exact if_neg hne'
  · obtain ⟨old, rfl⟩ := hi' i hitem
    exact if_neg hne'

end Files

/-! ## Nothing in a directory that is missing -/

section Missing

variable {v : Volume} {p n s : String}

/-- A directory that cannot be listed for its absence is missing. -/
theorem missing_of_readDir (hempty : p ≠ "") (hend : '\x00' ∉ p.toList)
    (hlen : p.utf8ByteSize ≤ longestPath) (hp : v.readDir p = .error .notFound) :
    Missing (v.walk true 40 (if Path.isAbsolute p then [] else v.current) (Path.split p)) := by
  rw [← resolve_eq_walk hempty hend hlen]
  rw [readDir, find] at hp
  rcases hresolve : v.resolve true p with e | ⟨r, _ | i⟩
  · rw [hresolve] at hp
    cases hp
    exact .inl rfl
  · exact .inr ⟨r, rfl⟩
  · rw [hresolve] at hp
    rcases i with _ | _ | _ <;> cases hp

theorem IsTree.item?_start (hv : v.IsTree) (p : String) :
    v.item? (if Path.isAbsolute p then [] else v.current) = some .directory := by
  split
  · exact v.item?_nil
  · exact hv.current

/-- Nothing is found behind a path to nothing. -/
theorem resolve_join_missing (hv : v.IsTree) (hp : v.readDir p = .error .notFound)
    (hempty : p ≠ "") (hend : '\x00' ∉ p.toList) (hshort : p.utf8ByteSize ≤ longestPath)
    (hn : IsSegment n) (hlen : (Path.join p n).utf8ByteSize ≤ longestPath) (follow : Bool) :
    v.resolve follow (Path.join p n) = .error .notFound := by
  have hslash := hn.unslashed
  have hend' : '\x00' ∉ (Path.join p n).toList := by
    rw [Path.join_unslashed hempty hslash]
    split <;> simp [hend, hn.unended]
  obtain ⟨a, hsplit, ha⟩ := Path.exists_split_join_unslashed (p := p) hslash
  rw [resolve_eq_walk (Path.join_ne_empty_unslashed hempty hslash) hend' hlen,
    Path.isAbsolute_join_unslashed hempty hslash, hsplit]
  exact walk_concat_missing hv (hv.item?_start p) (missing_of_readDir hempty hend hshort hp)
    hn.ne_empty follow a (Path.filter_counts_of_filter_ne_empty ha)

theorem resolve_join_join_missing (hv : v.IsTree) (hp : v.readDir p = .error .notFound)
    (hempty : p ≠ "") (hend : '\x00' ∉ p.toList) (hshort : p.utf8ByteSize ≤ longestPath)
    (hs : IsPlain s) (hn : IsPlain n)
    (hlen : (Path.join (Path.join p s) n).utf8ByteSize ≤ longestPath) (follow : Bool) :
    v.resolve follow (Path.join (Path.join p s) n) = .error .notFound := by
  have hempty' := Path.join_ne_empty hempty hs
  have habs := (Path.isAbsolute_join hempty' hn).trans (Path.isAbsolute_join hempty hs)
  obtain ⟨a, hsplit, ha⟩ := Path.exists_split_join (p := p) hs
  have hsplit' : Path.split (Path.join (Path.join p s) n) = (a ++ [s]) ++ [n] := by
    rw [Path.join_join hempty hs hn, Path.split_append_slash, hsplit,
      Path.split_unslashed hn.unslashed]
  rw [resolve_eq_walk (Path.join_ne_empty hempty' hn)
    (Path.unended_join hempty' hn (Path.unended_join hempty hs hend)) hlen, habs, hsplit']
  -- Neither the directory in the missing one is found nor what would be in that.
  have hstart := hv.item?_start p
  have hinner := walk_concat_missing hv hstart (missing_of_readDir hempty hend hshort hp)
    hs.ne_empty true a (Path.filter_counts_of_filter_ne_empty ha)
  exact walk_concat_missing hv hstart (.inl hinner) hn.ne_empty follow _ rfl

end Missing

/-! ## Making directories -/

section Making

variable {v w : Volume} {p n : String} {q : List String}

theorem within_makeDir (h : v.makeDir p = .ok w) : v.Within w := by
  rw [makeDir] at h
  rcases hresolve : v.resolve false p with e | ⟨r, _ | i⟩
  · rw [hresolve] at h
    cases h
  · rw [hresolve] at h
    obtain rfl : v.put r .directory = w := by
      simpa [bind, Except.bind, pure, Except.pure] using h
    have hnone : v.item? r = none := (resolve_eq_ok hresolve).symm
    refine within_put ?_ hnone
    rintro rfl
    rw [item?_nil] at hnone
    cases hnone
  · rw [hresolve] at h
    cases h

/-- Making directories is making some of them one after the other. -/
theorem makeDirsOf_induction {P : Volume → Prop} {above : List String}
    (hstep : ∀ u u', ∀ p ∈ above, P u → u.makeDir p = .ok u' → P u') (hv : P v)
    (h : v.makeDirsOf above = .ok w) : P w := by
  induction above generalizing w with
  | nil =>
    obtain rfl : v = w := by simpa [makeDirsOf] using h
    exact hv
  | cons p above ih =>
    have hself : ∀ u u', P u → u.makeDir p = .ok u' → P u' := fun u u' =>
      hstep u u' p (List.mem_cons_self ..)
    have ih : ∀ {u}, v.makeDirsOf above = .ok u → P u :=
      ih fun u u' m hm => hstep u u' m (List.mem_cons_of_mem _ hm)
    rw [makeDirsOf] at h
    split at h
    · next u hmake =>
      obtain rfl : u = w := by simpa using h
      exact hself v u hv hmake
    · rcases hrest : v.makeDirsOf above with e | u
      · rw [hrest] at h
        cases h
      rw [hrest] at h
      simp only [bind, Except.bind] at h
      have hu := ih hrest
      split at h
      · next u' hmake =>
        obtain rfl : u' = w := by simpa using h
        exact hself u u' hu hmake
      · split at h
        · obtain rfl : u = w := by simpa using h
          exact hu
        · cases h
    · split at h
      · obtain rfl : v = w := by simpa using h
        exact hv
      · cases h

/-- What is left of making directories is what making some of them leaves. -/
theorem dirsLeftOf_induction {P : Volume → Prop} {above : List String}
    (hstep : ∀ u u', ∀ p ∈ above, P u → u.makeDir p = .ok u' → P u') (hv : P v) :
    P (v.dirsLeftOf above) := by
  induction above with
  | nil => exact hv
  | cons p above ih =>
    have hrest := fun u u' m hm => hstep u u' m (List.mem_cons_of_mem p hm)
    rw [dirsLeftOf]
    split
    · split
      · next w hmake => exact makeDirsOf_induction hrest hv hmake
      · exact ih hrest
    · exact hv

theorem within_makeDirsOf {above : List String} (h : v.makeDirsOf above = .ok w) : v.Within w :=
  makeDirsOf_induction (fun _ _ _ _ hu hmake => hu.trans (within_makeDir hmake)) (.refl v) h

theorem within_makeDirs (h : v.makeDirs p = .ok w) : v.Within w :=
  within_makeDirsOf h

theorem within_dirsLeft (v : Volume) (p : String) : v.Within (v.dirsLeft p) :=
  dirsLeftOf_induction (fun _ _ _ _ hu hmake => hu.trans (within_makeDir hmake)) (.refl v)

/-- The paths that are made of the first of some names, the longest one first. -/
def ancestors (absolute : Bool) (names : List String) : List String :=
  (List.range names.length).map fun i => Path.ofParts absolute (names.take (names.length - i))

theorem ancestry_eq (p : String) : ancestry p = ancestors (Path.isAbsolute p) (Path.parts p) := rfl

theorem ancestors_concat (absolute : Bool) (names : List String) (n : String) :
    ancestors absolute (names ++ [n]) =
      Path.ofParts absolute (names ++ [n]) :: ancestors absolute names := by
  simp only [ancestors, List.length_append, List.length_singleton, List.range_succ_eq_map,
    List.map_cons, List.map_map]
  congr 1
  · rw [Nat.sub_zero, List.take_of_length_le (by simp)]
  · refine List.map_congr_left fun i _ => ?_
    have hle : names.length - i ≤ names.length := Nat.sub_le _ _
    rw [Function.comp_apply, Nat.succ_eq_add_one, Nat.add_sub_add_right,
      List.take_append_of_le_length hle]

theorem ancestry_join (hp : p ≠ "") (hn : IsPlain n) :
    ancestry (Path.join p n) =
      Path.ofParts (Path.isAbsolute p) (Path.parts p ++ [n]) :: ancestry p := by
  rw [ancestry_eq, Path.parts_join hp hn, Path.isAbsolute_join hp hn, ancestors_concat, ancestry_eq]

theorem exists_ancestry (hparts : Path.parts p ≠ []) :
    ∃ above, ancestry p = Path.ofParts (Path.isAbsolute p) (Path.parts p) :: above := by
  obtain ⟨n, hn⟩ := Nat.exists_eq_succ_of_ne_zero (mt List.length_eq_zero_iff.1 hparts)
  have hall : (Path.parts p).take (n + 1) = Path.parts p := List.take_of_length_le (by omega)
  simp only [ancestry, hn, Nat.succ_eq_add_one, List.range_succ_eq_map, List.map_cons, Nat.sub_zero,
    hall]
  exact ⟨_, rfl⟩

variable (h : v.LeadsTo p q) (hn : IsPlain n)
  (hlen : (Path.join p n).utf8ByteSize ≤ longestPath)

include h hn hlen

/-- A directory that is missing in a directory is made there. -/
theorem LeadsTo.makeDirs_join (hi : v.item? (q ++ [n]) = none) :
    v.makeDirs (Path.join p n) = .ok (v.put (q ++ [n]) .directory) := by
  rw [makeDirs, ancestry_join h.ne_empty hn, makeDirsOf, makeDir,
    h.resolve_ofParts hn hlen (by simp [hi]), hi]
  rfl

theorem LeadsTo.makeDirs_join_of_directory (hi : v.item? (q ++ [n]) = some .directory) :
    v.makeDirs (Path.join p n) = .ok v := by
  have hresolve := h.resolve_ofParts hn hlen (by simp [hi])
  have hdir : v.isDirectory (Path.ofParts (Path.isAbsolute p) (Path.parts p ++ [n])) = true := by
    rw [isDirectory, metadata, find, hresolve, hi]
    rfl
  rw [makeDirs, ancestry_join h.ne_empty hn, makeDirsOf, makeDir, hresolve, hi]
  exact if_pos hdir

omit h hlen in
/-- A directory in a directory that is missing is made after the directory. -/
theorem makeDirs_join_missing (hv : v.IsTree) (hp : v.readDir p = .error .notFound)
    (hw : v.makeDirs p = .ok w) (h : w.LeadsTo p q)
    (hlen : (Path.join p n).utf8ByteSize ≤ longestPath) (hi : w.item? (q ++ [n]) = none) :
    v.makeDirs (Path.join p n) = .ok (w.put (q ++ [n]) .directory) := by
  have hmissing := missing_of_readDir h.ne_empty h.unended h.short hp
  have hnotFound : v.resolve false (Path.ofParts (Path.isAbsolute p) (Path.parts p ++ [n])) =
      .error .notFound := by
    obtain ⟨hempty, hend, hle, habs, hsplit⟩ :=
      spelling_ofParts h.ne_empty h.unended hn
    rw [resolve_eq_walk hempty hend (Nat.le_trans hle hlen), habs, hsplit]
    exact walk_concat_missing hv (hv.item?_start p) hmissing hn.ne_empty false _
      (filter_counts_rooted_parts p)
  have hmake := h.resolve_ofParts hn hlen (by simp [hi]) false
  rw [makeDirs, ancestry_join h.ne_empty hn, makeDirsOf, makeDir, hnotFound]
  simp only [bind, Except.bind]
  rw [show v.makeDirsOf (ancestry p) = .ok w from hw]
  simp only
  rw [makeDir, hmake, hi]
  rfl

end Making

end CodeGraph.Volume
