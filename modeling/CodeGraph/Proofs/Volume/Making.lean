import CodeGraph.Proofs.Volume.Straight

/-!
# Directories that are made

Making the directories of a path changes nothing but that directories are there that the path wants
(`grown_makeDirs`, `grown_dirsLeft`). If the path goes on by plain names from a directory, all directories
are made that are missing or none is (`Anchored.cases`).
-/

namespace CodeGraph.Volume

open CodeGraph.Path (IsPlain)

variable {v w : Volume} {p n : String} {q s : List String}

/-- A place where a directory is made for a path: nothing is there when one of the ancestors of the path
is looked up, those further up made before. -/
def Wants (v : Volume) (p : String) (s : List String) : Prop :=
  ∃ u, v.Within u ∧ ∃ m ∈ ancestry p, u.resolve false m = .ok (s, none)

/-- Everything is as it was, but that directories are made that a path wants. -/
def Grown (v : Volume) (p : String) (w : Volume) : Prop :=
  ∀ s, w.item? s = v.item? s ∨
    v.item? s = none ∧ w.item? s = some .directory ∧ v.Wants p s

theorem Grown.refl (v : Volume) (p : String) : v.Grown p v := fun _ => .inl rfl

theorem Grown.makeDir {u : Volume} {m : String} (hm : m ∈ ancestry p)
    (h : v.Within w ∧ v.Grown p w) (hmake : w.makeDir m = .ok u) : v.Within u ∧ v.Grown p u := by
  refine ⟨h.1.trans (within_makeDir hmake), fun s => ?_⟩
  obtain ⟨t, hresolve, ht, rfl⟩ := exists_put_of_makeDir hmake
  rw [item?_put w ht]
  split
  · next heq =>
    subst heq
    rcases h.2 s with hsame | ⟨-, hdirectory, -⟩
    · exact .inr ⟨hsame.symm.trans (resolve_eq_ok hresolve).symm, rfl, w, h.1, m, hm, hresolve⟩
    · rw [← resolve_eq_ok hresolve] at hdirectory
      cases hdirectory
  · exact h.2 s

theorem grown_makeDirs (h : v.makeDirs p = .ok w) : v.Grown p w :=
  (makeDirsOf_induction (P := fun u => v.Within u ∧ v.Grown p u)
    (fun _ _ _ hm hu hmake => Grown.makeDir hm hu hmake) ⟨.refl v, .refl v p⟩ h).2

theorem grown_dirsLeft (v : Volume) (p : String) : v.Grown p (v.dirsLeft p) :=
  (dirsLeftOf_induction (P := fun u => v.Within u ∧ v.Grown p u)
    (fun _ _ _ hm hu hmake => Grown.makeDir hm hu hmake) ⟨.refl v, .refl v p⟩).2

/-! ## The paths of the directories -/

section Ancestors

variable {names : List String}

/-- A path that is made of the first names of another one. -/
theorem takes_ofParts (hp : Takes p) (hnames : names <+: Path.parts p) (hne : names ≠ []) :
    Takes (Path.ofParts (Path.isAbsolute p) names) ∧
      Path.isAbsolute (Path.ofParts (Path.isAbsolute p) names) = Path.isAbsolute p ∧
      Path.split (Path.ofParts (Path.isAbsolute p) names) =
        (if Path.isAbsolute p then [""] else []) ++ names := by
  have hmem : ∀ m ∈ names, m ∈ Path.parts p := fun m hm => hnames.subset hm
  have hempty : ∀ m ∈ names, m ≠ "" := fun m hm => Path.ne_empty_of_mem_parts (hmem m hm)
  have hslash : ∀ m ∈ names, '/' ∉ m.toList := fun m hm =>
    Path.unslashed_of_mem_split (Path.mem_split_of_mem_parts (hmem m hm))
  have hsplit := Path.split_ofParts (Path.isAbsolute p) hne hslash
  have habs := Path.isAbsolute_ofParts (Path.isAbsolute p) hne hempty hslash
  have hparts : Path.parts p ≠ [] := fun hnil => hne (List.prefix_nil.1 (hnil ▸ hnames))
  refine ⟨⟨fun heq => ?_, ?_, ?_⟩, habs, hsplit⟩
  · obtain ⟨front, n, rfl⟩ := (List.eq_nil_or_concat names).resolve_left hne
    rw [heq, Path.split_unslashed (n := "") (by decide), List.concat_eq_append,
      ← List.append_assoc] at hsplit
    have hlast := congrArg List.getLast? hsplit
    simp only [List.getLast?_singleton, List.getLast?_concat, Option.some.injEq] at hlast
    exact hempty n (by simp) hlast.symm
  · have hnames : '\x00' ∉ ("/".intercalate names).toList := fun hnul => by
      obtain ⟨n, hn, hc⟩ := (Path.mem_intercalate (by decide)).1 hnul
      have hp' := (Path.mem_intercalate (by decide)).2
        ⟨n, Path.mem_split_of_mem_parts (hmem n hn), hc⟩
      rw [Path.intercalate_split] at hp'
      exact hp.unended hp'
    rw [Path.ofParts]
    split <;> simpa using hnames
  · have hweight := Path.weight_le_of_sublist hnames.sublist
    rw [← Path.utf8ByteSize_intercalate hne, ← Path.utf8ByteSize_intercalate hparts] at hweight
    have hall := Path.utf8ByteSize_ofParts_le hparts
    have hshort := hp.short
    simp only [Path.ofParts, String.utf8ByteSize_append] at hall ⊢
    omega

/-- Where the way of a path starts. -/
def start (v : Volume) (p : String) : List String :=
  if Path.isAbsolute p then [] else v.current

/-- The path of the first names is looked up by these names. -/
theorem resolve_ofParts (hv : v.IsTree) (hp : Takes p) (hnames : names <+: Path.parts p)
    (hne : names ≠ []) (follow : Bool) :
    v.resolve follow (Path.ofParts (Path.isAbsolute p) names) =
      v.walk follow 40 (v.start p) names := by
  obtain ⟨htakes, habs, hsplit⟩ := takes_ofParts hp hnames hne
  rw [resolve_eq_walk htakes.ne_empty htakes.unended htakes.short, habs, hsplit]
  refine walk_skip_append (hv.item?_start p) (fun n hn => ?_) names
  split at hn
  · rw [List.mem_singleton.1 hn]
    rfl
  · cases hn

end Ancestors

/-! ## Directories that are made wholly or not at all -/

/-- A path that goes on by plain names from a directory. -/
structure Onward (v : Volume) (p : String) (front q back : List String) : Prop where
  parts : Path.parts p = front ++ back
  leads : v.walk true 40 (v.start p) front = .ok (q, some .directory)
  plain : ∀ n ∈ back, IsPlain n

/-- A path that leads to a directory, or goes on from one by plain names. -/
def Anchored (v : Volume) (p : String) : Prop :=
  ∃ front q back, v.Onward p front q back

/-- A path that leads to a directory goes no further on. -/
theorem LeadsTo.anchored (h : v.LeadsTo p q) : v.Anchored p :=
  ⟨Path.parts p, q, [], (List.append_nil _).symm,
    walk_of_filter_eq h.walk _ (Path.filter_counts_parts p), fun _ hn => nomatch hn⟩

theorem Anchored.join (h : v.Anchored p) (hp : p ≠ "") (hn : IsPlain n) :
    v.Anchored (Path.join p n) := by
  obtain ⟨front, q, back, hparts, hlead, hplain⟩ := h
  refine ⟨front, q, back ++ [n], ?_, ?_, ?_⟩
  · rw [Path.parts_join hp hn, hparts, List.append_assoc]
  · rw [start, Path.isAbsolute_join hp hn]
    exact hlead
  · simpa [or_imp, forall_and] using ⟨hplain, hn⟩

section Onward

variable {u : Volume} {front back rest : List String}

/-- What the first names of a path lead to is not made. -/
theorem makeDirsOf_of_leads (hv : v.IsTree) (hp : Takes p) (hfront : front <+: Path.parts p)
    (hlead : v.walk true 40 (v.start p) front = .ok (q, some .directory)) :
    v.makeDirsOf (ancestors (Path.isAbsolute p) front) = .ok v := by
  rcases List.eq_nil_or_concat front with rfl | ⟨b, m, rfl⟩
  · rfl
  rw [List.concat_eq_append] at hfront hlead ⊢
  have hleads : v.LeadsTo (Path.ofParts (Path.isAbsolute p) (b ++ [m])) q :=
    (resolve_ofParts hv hp hfront (by simp) true).trans hlead
  rw [ancestors_concat, makeDirsOf, hleads.makeDir]
  exact if_pos hleads.isDirectory

/-- One name further on a directory is made if nothing is there, and the names lead to it then. -/
theorem makeDir_concat (hv : v.IsTree) (hp : Takes p) (hparts : front ++ [n] <+: Path.parts p)
    (hlead : v.walk true 40 (v.start p) front = .ok (q, some .directory)) (hn : IsPlain n)
    (hnone : v.item? (q ++ [n]) = none) :
    v.makeDir (Path.ofParts (Path.isAbsolute p) (front ++ [n])) =
        .ok (v.put (q ++ [n]) .directory) ∧
      (v.put (q ++ [n]) .directory).walk true 40 (v.start p) (front ++ [n]) =
        .ok (q ++ [n], some .directory) := by
  have hitem : (v.put (q ++ [n]) .directory).item? (q ++ [n]) = some .directory := by
    rw [item?_put _ (by simp), if_pos rfl]
  constructor
  · obtain ⟨left, hleft⟩ := walk_append hlead
    rw [Volume.makeDir, resolve_ofParts hv hp hparts (by simp), hleft false [n] (List.cons_ne_nil _ _),
      walk_cons_missing (walk_eq_ok hlead).symm hn.toIsName hnone]
    rfl
  · have hwithin : v.Within (v.put (q ++ [n]) .directory) := within_put (by simp) hnone
    have hlead' := walk_within hwithin hlead
    obtain ⟨left, hleft⟩ := walk_append hlead'
    rw [hleft true [n] (List.cons_ne_nil _ _), walk_cons_directory (walk_eq_ok hlead').symm
      hn.toIsName hitem, walk, hitem]

/-- Behind a name that is missing no directory can be made before those above it. -/
theorem makeDir_behind_missing (hv : v.IsTree) (hp : Takes p) {m : String}
    (hparts : front ++ n :: back ++ [m] <+: Path.parts p)
    (hlead : v.walk true 40 (v.start p) front = .ok (q, some .directory)) (hn : IsPlain n)
    (hm : m ≠ "") (hnone : v.item? (q ++ [n]) = none) :
    v.makeDir (Path.ofParts (Path.isAbsolute p) (front ++ n :: back ++ [m])) = .error .notFound := by
  obtain ⟨left, hleft⟩ := walk_append hlead
  rw [Volume.makeDir, resolve_ofParts hv hp hparts (by simp), List.append_assoc,
    hleft false _ (by simp), List.cons_append, walk_cons_missing (walk_eq_ok hlead).symm hn.toIsName
      hnone, if_neg (by simp [hm])]
  rfl

/-- Directories of which the first one is missing in a directory are made one in the other. -/
theorem exists_makeDirsOf (hv : v.IsTree) (hp : Takes p)
    (hlead : v.walk true 40 (v.start p) front = .ok (q, some .directory))
    (hback : ∀ m ∈ back, IsPlain m) (hclear : ∀ m ∈ back.head?, v.item? (q ++ [m]) = none)
    (hparts : front ++ back <+: Path.parts p) :
    ∃ u, v.makeDirsOf (ancestors (Path.isAbsolute p) (front ++ back)) = .ok u ∧ u.IsTree ∧
      u.start p = v.start p ∧ v.Made (q ++ back) u ∧
      u.walk true 40 (u.start p) (front ++ back) = .ok (q ++ back, some .directory) := by
  induction back using List.reverseRecOn with
  | nil =>
    rw [List.append_nil] at hparts
    rw [List.append_nil, List.append_nil]
    exact ⟨v, makeDirsOf_of_leads hv hp hparts hlead, hv, rfl, .self hv (walk_eq_ok hlead).symm, hlead⟩
  | append_singleton b m ih =>
    obtain ⟨hb, hm⟩ := List.forall_mem_append.1 hback
    have hm := hm m (List.mem_singleton_self m)
    rw [← List.append_assoc] at hparts
    have hb' : ∀ n ∈ b.head?, v.item? (q ++ [n]) = none := fun n hn => hclear n (by
      rw [Option.mem_def] at hn ⊢
      rw [List.head?_append, hn, Option.some_or])
    obtain ⟨u, hu, htree, hstart, hmade, hway⟩ := ih hb hb' ((List.prefix_append _ _).trans hparts)
    -- Nothing is in a directory that is missing, and nothing else has been made there.
    have hmissing : v.item? (q ++ b ++ [m]) = none := by
      rcases b with _ | ⟨n, b⟩
      · rw [List.append_nil]
        exact hclear m rfl
      · refine Option.not_isSome_iff_eq_none.1 fun hsome => ?_
        have hback : b ++ [m] ≠ [] := by simp
        have hn : v.item? (q ++ [n]) = some .directory := hv.above hback (by simpa using hsome)
        rw [hclear n rfl] at hn
        cases hn
    have hnone : u.item? (q ++ b ++ [m]) = none := (hmade.item?_concat m).trans hmissing
    obtain ⟨hmake, hway'⟩ := makeDir_concat htree hp hparts hway hm hnone
    rw [← List.append_assoc, ← List.append_assoc]
    have hcurrent : (u.put (q ++ b ++ [m]) .directory).start p = u.start p := by
      rw [start, start, current_put]
    refine ⟨u.put (q ++ b ++ [m]) .directory, ?_, htree.put (walk_eq_ok hway).symm
      (fun h => nomatch hnone.symm.trans h), hcurrent.trans hstart, hmade.put hmissing, ?_⟩
    · rw [ancestors_concat, makeDirsOf]
      rcases b with _ | ⟨n, b⟩
      · rw [List.append_nil] at hu hparts hmake ⊢
        obtain rfl : v = u := Except.ok.inj ((makeDirsOf_of_leads hv hp
          ((List.prefix_append _ _).trans hparts) hlead).symm.trans hu)
        rw [hmake, List.append_nil]
      · rw [makeDir_behind_missing hv hp hparts hlead (hb n (List.mem_cons_self ..)) hm.ne_empty
          (hclear n rfl), hu]
        simp only [bind, Except.bind]
        rw [hmake]
    · rw [hcurrent]
      exact hway'

/-! What is in the way of a directory is in the way of those below it. -/

theorem isDirectory_eq_false (h : ∀ s, v.resolve true p ≠ .ok (s, some .directory)) :
    v.isDirectory p = false := by
  rw [isDirectory, metadata, find]
  rcases hresolve : v.resolve true p with e | ⟨s, _ | _ | _ | _⟩
  · rfl
  · rfl
  · rfl
  · exact absurd hresolve (h s)
  · rfl

/-- Nothing is made if the innermost directory cannot be, not for want of those above it or they cannot be
made either. -/
theorem makeDirsOf_cons_error {m : String} {above : List String}
    (hmake : ∀ w, v.makeDir m ≠ .ok w) (hdirectory : v.isDirectory m = false)
    (habove : v.makeDir m = .error .notFound →
      (∃ e, v.makeDirsOf above = .error e) ∧ v.dirsLeftOf above = v) :
    (∃ e, v.makeDirsOf (m :: above) = .error e) ∧ v.dirsLeftOf (m :: above) = v := by
  rw [makeDirsOf, dirsLeftOf]
  rcases hm : v.makeDir m with e | w
  · by_cases he : e = .notFound
    · subst he
      obtain ⟨⟨e, he⟩, hleft⟩ := habove hm
      exact ⟨⟨e, by rw [he]; rfl⟩, by rw [he]; exact hleft⟩
    · refine ⟨⟨e, ?_⟩, ?_⟩
      · cases e <;> first | exact absurd rfl he | exact if_neg (by simp [hdirectory])
      · cases e <;> first | exact absurd rfl he | rfl
  · exact absurd hm (hmake w)

/-- Names behind some that lead to no directory lead to none. -/
theorem exists_leads_of_behind {follow : Bool} {m : String} {found : List String × Option Item}
    (hback : ∀ n ∈ back ++ [m], IsPlain n)
    (h : v.walk follow 40 (v.start p) (front ++ back ++ [m]) = .ok found) :
    ∃ q, v.walk true 40 (v.start p) front = .ok (q, some .directory) := by
  induction back using List.reverseRecOn generalizing follow m found with
  | nil =>
    have hm := hback m (by simp)
    rw [List.append_nil] at h
    exact (exists_of_walk_concat hm.ne_empty hm.ne_dot hm.ne_up h).2
  | append_singleton b n ih =>
    have hm := hback m (by simp)
    obtain ⟨-, q, hq⟩ := exists_of_walk_concat hm.ne_empty hm.ne_dot hm.ne_up h
    rw [← List.append_assoc] at hq
    exact ih (fun k hk => hback k (List.mem_append_left _ hk)) hq

/-- Directories behind a name under which there is something else are not made, and none above them. -/
theorem makeDirsOf_blocked (hv : v.IsTree) (hp : Takes p)
    (hlead : v.walk true 40 (v.start p) front = .ok (q, some .directory))
    (hback : ∀ m ∈ n :: back, IsPlain m) (hitem : (v.item? (q ++ [n])).isSome)
    (hnot : ∀ s, v.walk true 40 (v.start p) (front ++ [n]) ≠ .ok (s, some .directory))
    (hparts : front ++ n :: back <+: Path.parts p) :
    (∃ e, v.makeDirsOf (ancestors (Path.isAbsolute p) (front ++ n :: back)) = .error e) ∧
      v.dirsLeftOf (ancestors (Path.isAbsolute p) (front ++ n :: back)) = v := by
  induction back using List.reverseRecOn with
  | nil =>
    have hn := hback n (List.mem_singleton_self n)
    have hq := (walk_eq_ok hlead).symm
    have hresolve := resolve_ofParts hv hp hparts (by simp)
    have hexists : v.makeDir (Path.ofParts (Path.isAbsolute p) (front ++ [n])) =
        .error .alreadyExists := by
      obtain ⟨left, hleft⟩ := walk_append hlead
      obtain ⟨i, hi⟩ := Option.isSome_iff_exists.1 hitem
      have hfound : v.walk false left q [n] = .ok (q ++ [n], some i) := by
        rcases i with content | _ | target
        · rw [walk_cons_file hq hn.toIsName hi]
          rfl
        · rw [walk_cons_directory hq hn.toIsName hi, walk, hi]
        · exact walk_link_end hq hn.toIsName hi
      rw [Volume.makeDir, hresolve, hleft false [n] (List.cons_ne_nil _ _), hfound]
      rfl
    rw [ancestors_concat]
    refine makeDirsOf_cons_error (fun w hw => ?_) (isDirectory_eq_false fun s => ?_) fun h => ?_
    · rw [hexists] at hw
      cases hw
    · rw [hresolve]
      exact hnot s
    · rw [hexists] at h
      cases h
  | append_singleton b m ih =>
    have hb : ∀ k ∈ b ++ [m], IsPlain k := fun k hk => hback k (List.mem_cons_of_mem _ hk)
    have heq : front ++ n :: (b ++ [m]) = front ++ [n] ++ b ++ [m] := by simp
    have hnone : ∀ follow found, v.resolve follow
        (Path.ofParts (Path.isAbsolute p) (front ++ [n] ++ b ++ [m])) ≠ .ok found := by
      intro follow found hresolve
      rw [resolve_ofParts hv hp (heq ▸ hparts) (by simp)] at hresolve
      obtain ⟨s, hs⟩ := exists_leads_of_behind hb hresolve
      exact hnot s hs
    have habove := ih (fun k hk => hback k (by
      rw [List.mem_cons, List.mem_append]
      exact (List.mem_cons.1 hk).imp_right .inl)) (List.IsPrefix.trans ⟨[m], by simp⟩ hparts)
    rw [heq, ancestors_concat]
    refine makeDirsOf_cons_error (fun w hw => ?_) (isDirectory_eq_false fun s => hnone true _)
      fun _ => by simpa using habove
    obtain ⟨s, hresolve, -⟩ := exists_put_of_makeDir hw
    exact hnone false _ hresolve

theorem leadsTo_of_parts (hp : Takes p)
    (h : v.walk true 40 (v.start p) (Path.parts p) = .ok (q, some .directory)) : v.LeadsTo p q := by
  rw [LeadsTo, resolve_eq_walk hp.ne_empty hp.unended hp.short]
  exact walk_of_filter_eq h _ (Path.filter_counts_parts p).symm

/-- A directory behind a name that is missing is missing. -/
theorem readDir_behind_missing (hp : Takes p) (hparts : Path.parts p = front ++ n :: back)
    (hlead : v.walk true 40 (v.start p) front = .ok (q, some .directory)) (hn : IsPlain n)
    (hnone : v.item? (q ++ [n]) = none) : v.readDir p = .error .notFound := by
  have hfilter := Path.filter_counts_parts p
  rw [hparts, List.filter_append, List.filter_cons, if_pos hn.toIsName.counts] at hfilter
  obtain ⟨a, b, hsplit, ha, hb⟩ := List.filter_eq_append_iff.1 hfilter.symm
  obtain ⟨skipped, rest, rfl, hskipped, -⟩ := filter_eq_cons hb
  have hfront : (a ++ skipped).filter counts = front.filter counts := by
    have hnil : skipped.filter counts = [] := List.filter_eq_nil_iff.2 (by simpa using hskipped)
    rw [List.filter_append, ha, hnil, List.append_nil]
  obtain ⟨left, hleft⟩ := walk_append (walk_of_filter_eq hlead _ hfront)
  have hresolve : v.resolve true p = if rest.all (· == "") then .ok (q ++ [n], none)
      else .error .notFound := by
    rw [resolve_eq_walk hp.ne_empty hp.unended hp.short, hsplit, ← List.append_assoc]
    exact (hleft true _ (List.cons_ne_nil _ _)).trans
      (walk_cons_missing (walk_eq_ok hlead).symm hn.toIsName hnone)
  rw [readDir, find, hresolve]
  split <;> rfl

/-- **Directories are made wholly or not at all** for a path that goes on by plain names: it leads to a
directory, or to one that is missing and is made, or what is in the way stays and nothing is made. -/
theorem Anchored.cases (hv : v.IsTree) (hp : Takes p) (h : v.Anchored p) :
    (∃ q, v.LeadsTo p q) ∨
      (v.readDir p = .error .notFound ∧ ∃ u q, v.makeDirs p = .ok u ∧ u.IsTree ∧ u.LeadsTo p q ∧
        v.Made q u ∧ v.item? q = none) ∨
      (∃ e, v.makeDirs p = .error e) ∧ v.dirsLeft p = v := by
  obtain ⟨front, q, back, hparts, hlead, hplain⟩ := h
  induction back generalizing front q with
  | nil =>
    rw [List.append_nil] at hparts
    exact .inl ⟨q, leadsTo_of_parts hp (hparts ▸ hlead)⟩
  | cons n back ih =>
    have hn := hplain n (List.mem_cons_self ..)
    by_cases hnext : ∃ s, v.walk true 40 (v.start p) (front ++ [n]) = .ok (s, some .directory)
    · obtain ⟨s, hs⟩ := hnext
      exact ih (front ++ [n]) s (by simpa using hparts) hs fun m hm =>
        hplain m (List.mem_cons_of_mem _ hm)
    have hprefix : front ++ n :: back <+: Path.parts p := hparts ▸ List.prefix_refl _
    rcases hitem : v.item? (q ++ [n]) with _ | i
    · obtain ⟨u, hu, htree, hstart, hmade, hway⟩ := exists_makeDirsOf hv hp hlead hplain
        (fun m hm => by rwa [← Option.some.inj hm]) hprefix
      refine .inr (.inl ⟨readDir_behind_missing hp hparts hlead hn hitem, u, q ++ n :: back, ?_, htree,
        leadsTo_of_parts hp (hparts ▸ hway), hmade, ?_⟩)
      · rw [makeDirs, ancestry_eq, hparts]
        exact hu
      · refine Option.not_isSome_iff_eq_none.1 fun hsome => ?_
        rcases back with _ | ⟨m, back⟩
        · rw [hitem] at hsome
          cases hsome
        · have habove : v.item? (q ++ [n]) = some .directory :=
            hv.above (List.cons_ne_nil m back) (by simpa using hsome)
          rw [hitem] at habove
          cases habove
    · obtain ⟨herror, hleft⟩ := makeDirsOf_blocked hv hp hlead hplain (by rw [hitem]; rfl)
        (fun s hs => hnext ⟨s, hs⟩) hprefix
      rw [makeDirs, dirsLeft, ancestry_eq, hparts]
      exact .inr (.inr ⟨herror, hleft⟩)

end Onward

end CodeGraph.Volume
