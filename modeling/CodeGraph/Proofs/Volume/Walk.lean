import CodeGraph.Proofs.Volume.Items

/-!
# Ways through a volume

A path that leads to a directory can be gone on with from there (`walk_append`), wherever its links
have led, and what is found on a way is found on it in every volume that has more items
(`walk_within`). Empty names and single dots on the way make no difference
(`walk_of_filter_eq`). A way on from something that is missing leads nowhere in a volume whose items
are all in directories (`walk_concat_missing`). Where a tree and another volume have the same
directories and links, a way goes alike in both until it comes to a file or to nothing
(`Abreast.of_kept`).
-/

namespace CodeGraph.Volume

theorem any_isDirectory_iff {i : Option Item} :
    i.any (·.isDirectory) = true ↔ i = some .directory := by
  rcases i with _ | (_ | _ | _) <;> simp [Item.isDirectory]

/-- A way goes on only from a directory. -/
theorem directory_of_not {i : Option Item} (h : ¬ (!i.any (·.isDirectory)) = true) :
    i = some .directory :=
  any_isDirectory_iff.1 (by simpa using h)

/-- A way ends at a link that is its last name unless links at the end are followed. -/
theorem link_ends_iff {rest : List String} {follow : Bool} :
    (rest.isEmpty = true ∧ (!follow) = true) ↔ rest = [] ∧ follow = false := by
  rw [List.isEmpty_iff, Bool.not_eq_true']

theorem link_followed_iff {rest : List String} {follow : Bool} :
    ¬ (rest.isEmpty = true ∧ (!follow) = true) ↔ rest ≠ [] ∨ follow = true := by
  rw [link_ends_iff, Decidable.not_and_iff_or_not, Bool.not_eq_false]

/-- A name that leads one step further down. -/
structure IsName (n : String) : Prop where
  ne_empty : n ≠ ""
  ne_dot : n ≠ "."
  ne_up : n ≠ ".."
  short : n.utf8ByteSize ≤ longestName

/-- A name that stands for itself behind a path unless it is too long. -/
structure IsSegment (n : String) : Prop where
  ne_empty : n ≠ ""
  ne_dot : n ≠ "."
  ne_up : n ≠ ".."
  unslashed : '/' ∉ n.toList
  unended : '\x00' ∉ n.toList

theorem isName_of_not {n : String} (hdot : ¬ (n = "" ∨ n = ".")) (hup : n ≠ "..")
    (hshort : ¬ longestName < n.utf8ByteSize) : IsName n :=
  ⟨fun h => hdot (.inl h), fun h => hdot (.inr h), hup, Nat.not_lt.1 hshort⟩

/-! ## One name -/

section Step

variable {v : Volume} {follow : Bool} {hops : Nat} {here : List String} {n : String}
  {rest : List String}

theorem walk_cons_skip (hhere : v.item? here = some .directory) (hn : n = "" ∨ n = ".") :
    v.walk follow hops here (n :: rest) = v.walk follow hops here rest := by
  rw [walk]
  simp [hhere, hn, Item.isDirectory]

theorem walk_cons_up (hhere : v.item? here = some .directory) :
    v.walk follow hops here (".." :: rest) = v.walk follow hops here.dropLast rest := by
  rw [walk]
  simp [hhere, Item.isDirectory]

theorem walk_cons_long (hhere : v.item? here = some .directory) (hdot : ¬ (n = "" ∨ n = "."))
    (hup : n ≠ "..") (hlong : longestName < n.utf8ByteSize) :
    v.walk follow hops here (n :: rest) = .error .nameTooLong := by
  rw [walk]
  simp [hhere, hdot, hup, hlong, Item.isDirectory]

variable (hhere : v.item? here = some .directory) (hn : IsName n)

include hhere hn

theorem walk_cons_missing (hi : v.item? (here ++ [n]) = none) :
    v.walk follow hops here (n :: rest) =
      if rest.all (· == "") then .ok (here ++ [n], none) else .error .notFound := by
  rw [walk]
  simp [hhere, hn.ne_empty, hn.ne_dot, hn.ne_up, Nat.not_lt.2 hn.short, hi, Item.isDirectory]

theorem walk_cons_file {content : ByteArray} (hi : v.item? (here ++ [n]) = some (.file content)) :
    v.walk follow hops here (n :: rest) =
      if rest.isEmpty then .ok (here ++ [n], some (.file content)) else .error .notDirectory := by
  rw [walk]
  simp [hhere, hn.ne_empty, hn.ne_dot, hn.ne_up, Nat.not_lt.2 hn.short, hi, Item.isDirectory]

theorem walk_cons_directory (hi : v.item? (here ++ [n]) = some .directory) :
    v.walk follow hops here (n :: rest) = v.walk follow hops (here ++ [n]) rest := by
  rw [walk]
  simp [hhere, hn.ne_empty, hn.ne_dot, hn.ne_up, Nat.not_lt.2 hn.short, hi, Item.isDirectory]

theorem walk_cons_link {target : String} (hi : v.item? (here ++ [n]) = some (.link target))
    (hgo : rest ≠ [] ∨ follow = true) :
    v.walk follow (hops + 1) here (n :: rest) =
      v.walk follow hops (if Path.isAbsolute target then [] else here)
        (Path.split target ++ rest) := by
  have hgo' := link_followed_iff.2 hgo
  rw [walk]
  simp only [hhere, Option.any_some, Item.isDirectory, Bool.not_true, Bool.false_eq_true, if_false,
    hn.ne_empty, hn.ne_dot, hn.ne_up, or_self, Nat.not_lt.2 hn.short, hi, hgo']

theorem walk_link_exhausted {target : String} (hi : v.item? (here ++ [n]) = some (.link target))
    (hgo : rest ≠ [] ∨ follow = true) :
    v.walk follow 0 here (n :: rest) = .error .tooManyLinks := by
  have hgo' := link_followed_iff.2 hgo
  rw [walk]
  simp only [hhere, Option.any_some, Item.isDirectory, Bool.not_true, Bool.false_eq_true, if_false,
    hn.ne_empty, hn.ne_dot, hn.ne_up, or_self, Nat.not_lt.2 hn.short, hi, hgo']

theorem walk_link_end {target : String} (hi : v.item? (here ++ [n]) = some (.link target)) :
    v.walk false hops here [n] = .ok (here ++ [n], some (.link target)) := by
  rw [walk]
  simp [hhere, hn.ne_empty, hn.ne_dot, hn.ne_up, Nat.not_lt.2 hn.short, hi, Item.isDirectory]

/-- A way on by a name to a file or to nothing ends there. -/
theorem walk_cons_eq_ok
    (hitem : ∀ i, v.item? (here ++ [n]) = some i → ∃ content, i = .file content)
    {q : List String} {i : Option Item} (h : v.walk follow hops here (n :: rest) = .ok (q, i)) :
    q = here ++ [n] ∧ (i = none ∧ v.item? q = none ∧ rest.all (· == "") = true ∨
      ∃ content, i = some (.file content) ∧ v.item? q = i ∧ rest = []) := by
  rcases hi : v.item? (here ++ [n]) with _ | j
  · rw [walk_cons_missing hhere hn hi] at h
    split at h
    · next hrest =>
      cases h
      exact ⟨rfl, .inl ⟨rfl, hi, hrest⟩⟩
    · cases h
  · obtain ⟨content, rfl⟩ := hitem j hi
    rw [walk_cons_file hhere hn hi] at h
    split at h
    · next hrest =>
      cases h
      exact ⟨rfl, .inr ⟨content, rfl, hi, List.isEmpty_iff.1 hrest⟩⟩
    · cases h

end Step

/-! ## Going on -/

/-- A way that ends in a directory can be gone on with from there, also where only files have changed. -/
theorem walk_append_kept {v : Volume} {hops : Nat} {here q : List String} {a : List String}
    (h : v.walk true hops here a = .ok (q, some .directory)) :
    ∃ left, ∀ w : Volume, (∀ s i, v.item? s = some i → (∀ content, i ≠ .file content) →
      w.item? s = some i) → ∀ follow b, b ≠ [] →
        w.walk follow hops here (a ++ b) = w.walk follow left q b := by
  fun_induction walk v true hops here a with
  -- The way ends here, with the links that may still be followed.
  | case1 hops here =>
    simp only [Except.ok.injEq, Prod.mk.injEq] at h
    obtain ⟨rfl, -⟩ := h
    exact ⟨hops, fun _ _ _ _ _ => rfl⟩
  | case3 hops here n rest hhere hn ih =>
    obtain ⟨left, hleft⟩ := ih h
    refine ⟨left, fun w hw follow b hb => ?_⟩
    have hhere := hw _ _ (directory_of_not hhere) (by simp)
    rw [List.cons_append, walk_cons_skip hhere hn, hleft w hw follow b hb]
  | case4 hops here rest hhere _ ih =>
    obtain ⟨left, hleft⟩ := ih h
    refine ⟨left, fun w hw follow b hb => ?_⟩
    have hhere := hw _ _ (directory_of_not hhere) (by simp)
    rw [List.cons_append, walk_cons_up hhere, hleft w hw follow b hb]
  | case10 here n rest hhere hdot hup hshort there target hi hgo hops ih =>
    obtain ⟨left, hleft⟩ := ih h
    refine ⟨left, fun w hw follow b hb => ?_⟩
    have hhere := hw _ _ (directory_of_not hhere) (by simp)
    rw [List.cons_append, walk_cons_link hhere (isName_of_not hdot hup hshort)
      (hw _ _ hi (by simp)) (.inl (by simp [hb])), ← List.append_assoc]
    exact hleft w hw follow b hb
  | case13 hops here n rest hhere hdot hup hshort there hi ih =>
    obtain ⟨left, hleft⟩ := ih h
    refine ⟨left, fun w hw follow b hb => ?_⟩
    have hhere := hw _ _ (directory_of_not hhere) (by simp)
    rw [List.cons_append, walk_cons_directory hhere (isName_of_not hdot hup hshort)
      (hw _ _ hi (by simp)), hleft w hw follow b hb]
  | case8 => simp_all
  | case2 | case5 | case6 | case7 | case9 | case11 | case12 => simp at h

theorem walk_append {v : Volume} {hops : Nat} {here q : List String} {a : List String}
    (h : v.walk true hops here a = .ok (q, some .directory)) :
    ∃ left, ∀ follow b, b ≠ [] →
      v.walk follow hops here (a ++ b) = v.walk follow left q b := by
  obtain ⟨left, hleft⟩ := walk_append_kept h
  exact ⟨left, hleft v fun _ _ hi _ => hi⟩

/-! ## More items -/

/-- Every item of a volume is in another one. -/
structure Within (v w : Volume) : Prop where
  current : w.current = v.current
  item : ∀ p i, v.item? p = some i → w.item? p = some i

theorem Within.refl (v : Volume) : v.Within v := ⟨rfl, fun _ _ h => h⟩

theorem Within.trans {u v w : Volume} (h₁ : u.Within v) (h₂ : v.Within w) : u.Within w :=
  ⟨h₂.current.trans h₁.current, fun p i h => h₂.item p i (h₁.item p i h)⟩

theorem within_put {v : Volume} {q : List String} {i : Item} (hq : q ≠ [])
    (hi : v.item? q = none) : v.Within (v.put q i) := by
  refine ⟨current_put v q i, fun p j hp => ?_⟩
  rw [item?_put v hq, if_neg]
  · exact hp
  · rintro rfl
    rw [hi] at hp
    cases hp

/-- What is found is found in every volume with more items. -/
theorem walk_within {v w : Volume} (hw : v.Within w) {follow : Bool} {hops : Nat}
    {here q a : List String} {i : Item} (h : v.walk follow hops here a = .ok (q, some i)) :
    w.walk follow hops here a = .ok (q, some i) := by
  fun_induction walk v follow hops here a with
  | case1 hops here =>
    simp only [Except.ok.injEq, Prod.mk.injEq] at h
    obtain ⟨rfl, hi⟩ := h
    rw [walk, hw.item _ _ hi]
  | case3 hops here n rest hhere hn ih =>
    have hhere := hw.item _ _ (directory_of_not hhere)
    rw [walk_cons_skip hhere hn, ih h]
  | case4 hops here rest hhere _ ih =>
    have hhere := hw.item _ _ (directory_of_not hhere)
    rw [walk_cons_up hhere, ih h]
  | case8 hops here n rest hhere hdot hup hshort there target hi hstop =>
    have hhere := hw.item _ _ (directory_of_not hhere)
    obtain ⟨rfl, rfl⟩ := link_ends_iff.1 hstop
    rw [walk_link_end hhere (isName_of_not hdot hup hshort) (hw.item _ _ hi)]
    exact h
  | case10 here n rest hhere hdot hup hshort there target hi hgo hops ih =>
    have hhere := hw.item _ _ (directory_of_not hhere)
    rw [Nat.succ_eq_add_one,
      walk_cons_link hhere (isName_of_not hdot hup hshort) (hw.item _ _ hi)
        (link_followed_iff.1 hgo)]
    exact ih h
  | case11 hops here n rest hhere hdot hup hshort there content hi hrest =>
    have hhere := hw.item _ _ (directory_of_not hhere)
    rw [walk_cons_file hhere (isName_of_not hdot hup hshort) (hw.item _ _ hi), if_pos hrest]
    exact h
  | case13 hops here n rest hhere hdot hup hshort there hi ih =>
    have hhere := hw.item _ _ (directory_of_not hhere)
    rw [walk_cons_directory hhere (isName_of_not hdot hup hshort) (hw.item _ _ hi)]
    exact ih h
  | case2 | case5 | case6 | case7 | case9 | case12 => simp at h

theorem walk_eq_ok {v : Volume} {follow : Bool} {hops : Nat} {here q a : List String}
    {i : Option Item} (h : v.walk follow hops here a = .ok (q, i)) : i = v.item? q := by
  fun_induction walk v follow hops here a with
  | case1 =>
    simp only [Except.ok.injEq, Prod.mk.injEq] at h
    obtain ⟨rfl, rfl⟩ := h
    rfl
  | case3 _ _ _ _ _ _ ih | case4 _ _ _ _ _ ih => exact ih h
  | case10 _ _ _ _ _ _ _ _ _ _ _ _ ih => exact ih h
  | case13 _ _ _ _ _ _ _ _ _ _ ih => exact ih h
  | case6 | case8 | case11 => simp_all
  | case2 | case5 | case7 | case9 | case12 => simp at h

/-! ## Names that do not count -/

/-- Whether a name leads elsewhere than where it stands. -/
def counts (n : String) : Bool :=
  n != "" && n != "."

theorem counts_eq_false_iff {n : String} : counts n = false ↔ n = "" ∨ n = "." := by
  simp only [counts, Bool.and_eq_false_iff, bne_eq_false_iff_eq]

theorem IsName.counts {n : String} (hn : IsName n) : counts n = true := by
  simp [Volume.counts, hn.ne_empty, hn.ne_dot]

theorem walk_skip_append {v : Volume} {follow : Bool} {hops : Nat} {here : List String}
    (hhere : v.item? here = some .directory) {a : List String}
    (ha : ∀ n ∈ a, counts n = false) (b : List String) :
    v.walk follow hops here (a ++ b) = v.walk follow hops here b := by
  induction a with
  | nil => rfl
  | cons n a ih =>
    rw [List.cons_append,
      walk_cons_skip hhere (counts_eq_false_iff.1 (ha n (List.mem_cons_self ..))),
      ih fun m hm => ha m (List.mem_cons_of_mem _ hm)]

/-- A list whose counting names start with a given one goes on with it after names that do not
count. -/
theorem filter_eq_cons {a b : List String} {n : String} (h : a.filter counts = n :: b) :
    ∃ skipped rest, a = skipped ++ n :: rest ∧ (∀ m ∈ skipped, counts m = false) ∧
      rest.filter counts = b := by
  obtain ⟨skipped, rest, rfl, hskip, -, hrest⟩ := List.filter_eq_cons_iff.1 h
  exact ⟨skipped, rest, rfl, fun m hm => by simpa using hskip m hm, hrest⟩

/-- A way to a directory depends on the names that count only. -/
theorem walk_of_filter_eq {v : Volume} {hops : Nat} {here q a : List String}
    (h : v.walk true hops here a = .ok (q, some .directory)) :
    ∀ b, b.filter counts = a.filter counts →
      v.walk true hops here b = .ok (q, some .directory) := by
  fun_induction walk v true hops here a with
  | case1 hops here =>
    intro b hab
    simp only [Except.ok.injEq, Prod.mk.injEq] at h
    obtain ⟨rfl, hi⟩ := h
    have hb : ∀ n ∈ b, counts n = false := by
      simpa [List.filter_eq_nil_iff] using hab
    rw [← List.append_nil b, walk_skip_append hi hb, walk, hi]
  | case3 hops here n rest hhere hn ih =>
    intro b hab
    refine ih h b ?_
    rw [hab, List.filter_cons, counts_eq_false_iff.2 hn]
    rfl
  | case4 hops here rest hhere hdot ih =>
    intro b hab
    have hhere := directory_of_not hhere
    obtain ⟨skipped, rest', rfl, hskip, hrest⟩ := filter_eq_cons (b := rest.filter counts) hab
    rw [walk_skip_append hhere hskip, walk_cons_up hhere]
    exact ih h rest' hrest
  | case10 here n rest hhere hdot hup hshort there target hi hgo hops ih =>
    intro b hab
    have hhere := directory_of_not hhere
    have hn := isName_of_not hdot hup hshort
    rw [List.filter_cons, if_pos hn.counts] at hab
    obtain ⟨skipped, rest', rfl, hskip, hrest⟩ := filter_eq_cons hab
    rw [Nat.succ_eq_add_one, walk_skip_append hhere hskip, walk_cons_link hhere hn hi (.inr rfl)]
    refine ih h _ ?_
    rw [List.filter_append, List.filter_append, hrest]
  | case13 hops here n rest hhere hdot hup hshort there hi ih =>
    intro b hab
    have hhere := directory_of_not hhere
    have hn := isName_of_not hdot hup hshort
    rw [List.filter_cons, if_pos hn.counts] at hab
    obtain ⟨skipped, rest', rfl, hskip, hrest⟩ := filter_eq_cons hab
    rw [walk_skip_append hhere hskip, walk_cons_directory hhere hn hi]
    exact ih h rest' hrest
  | case8 => simp_all
  | case2 | case5 | case6 | case7 | case9 | case11 | case12 => simp at h

/-! ## What is missing -/

/-- Every item is in a directory, and so is where relative paths start. -/
structure IsTree (v : Volume) : Prop where
  current : v.item? v.current = some .directory
  parent : ∀ p n, (v.item? (p ++ [n])).isSome → v.item? p = some .directory

theorem IsTree.dropLast {v : Volume} (hv : v.IsTree) {p : List String}
    (hp : v.item? p = some .directory) : v.item? p.dropLast = some .directory := by
  rcases List.eq_nil_or_concat p with rfl | ⟨q, n, rfl⟩
  · exact hp
  · rw [List.concat_eq_append] at hp ⊢
    rw [List.dropLast_concat]
    exact hv.parent q n (by simp [hp])

/-- Whether a way has led to something that is not there. -/
def Missing (r : Except OsError (List String × Option Item)) : Prop :=
  r = .error .notFound ∨ ∃ p, r = .ok (p, none)

/-- Nothing is found behind what is missing, however the way there is spelt. -/
theorem walk_concat_missing {v : Volume} (hv : v.IsTree) {hops : Nat} {here : List String}
    (hhere : v.item? here = some .directory) {a : List String}
    (h : Missing (v.walk true hops here a)) {n : String} (hn : n ≠ "") (follow : Bool) :
    ∀ b, b.filter counts = a.filter counts →
      v.walk follow hops here (b ++ [n]) = .error .notFound := by
  fun_induction walk v true hops here a with
  | case1 hops here => simp [Missing, hhere] at h
  | case2 hops here m rest hnot => simp [hhere, Item.isDirectory] at hnot
  | case3 hops here m rest _ hm ih =>
    intro b hab
    refine ih hhere h b ?_
    rw [hab, List.filter_cons, counts_eq_false_iff.2 hm]
    rfl
  | case4 hops here rest _ _ ih =>
    intro b hab
    obtain ⟨skipped, rest', rfl, hskip, hrest⟩ := filter_eq_cons (b := rest.filter counts) hab
    rw [List.append_assoc, walk_skip_append hhere hskip, List.cons_append, walk_cons_up hhere]
    exact ih (hv.dropLast hhere) h rest' hrest
  | case6 hops here m rest _ hdot hup hshort there hi _
  | case7 hops here m rest _ hdot hup hshort there hi _ =>
    intro b hab
    have hm := isName_of_not hdot hup hshort
    rw [List.filter_cons, if_pos hm.counts] at hab
    obtain ⟨skipped, rest', rfl, hskip, -⟩ := filter_eq_cons hab
    rw [List.append_assoc, walk_skip_append hhere hskip, List.cons_append,
      walk_cons_missing hhere hm hi, if_neg (by simp [hn])]
  | case10 here m rest _ hdot hup hshort there target hi hgo hops ih =>
    intro b hab
    have hm := isName_of_not hdot hup hshort
    rw [List.filter_cons, if_pos hm.counts] at hab
    obtain ⟨skipped, rest', rfl, hskip, hrest⟩ := filter_eq_cons hab
    rw [List.append_assoc, walk_skip_append hhere hskip, List.cons_append, Nat.succ_eq_add_one,
      walk_cons_link hhere hm hi (.inl (by simp)), ← List.append_assoc]
    -- The names of the target stand before what is left in both spellings.
    refine ih ?_ h _ ?_
    · split
      · exact v.item?_nil
      · exact hhere
    · rw [List.filter_append, List.filter_append, hrest]
  | case13 hops here m rest _ hdot hup hshort there hi ih =>
    intro b hab
    have hm := isName_of_not hdot hup hshort
    rw [List.filter_cons, if_pos hm.counts] at hab
    obtain ⟨skipped, rest', rfl, hskip, hrest⟩ := filter_eq_cons hab
    rw [List.append_assoc, walk_skip_append hhere hskip, List.cons_append,
      walk_cons_directory hhere hm hi]
    exact ih hi h rest' hrest
  | case8 => simp_all
  | case5 | case9 | case11 | case12 => simp [Missing] at h

/-! ## Ways in two volumes -/

/-- How a way goes in a volume and in another one: alike, or alike until it comes to a name in a
directory of the first volume where this one has neither a directory nor a link. -/
inductive Abreast (v w : Volume) (follow : Bool) (hops : Nat) (here names : List String) : Prop
  | same (walk : w.walk follow hops here names = v.walk follow hops here names)
  | parts {left : Nat} {there : List String} {n : String} {rest : List String}
      (directory : v.item? there = some .directory) (name : IsName n)
      (item : ∀ i, v.item? (there ++ [n]) = some i → ∃ content, i = .file content)
      (met : n ∈ names ∨ ∃ s target, v.item? s = some (.link target) ∧ n ∈ Path.split target)
      (walk : v.walk follow hops here names = v.walk follow left there (n :: rest))
      (walk' : w.walk follow hops here names = w.walk follow left there (n :: rest))

namespace Abreast

variable {v w : Volume} {follow : Bool} {hops hops' : Nat} {here here' names names' : List String}

/-- One step back on the way. -/
theorem back (h : Abreast v w follow hops' here' names')
    (hmet : ∀ n ∈ names', n ∈ names ∨ ∃ s target, v.item? s = some (.link target) ∧
      n ∈ Path.split target)
    (hstep : v.walk follow hops here names = v.walk follow hops' here' names')
    (hstep' : w.walk follow hops here names = w.walk follow hops' here' names') :
    Abreast v w follow hops here names := by
  cases h with
  | same walk => exact .same (hstep'.trans (walk.trans hstep.symm))
  | parts directory name item met walk walk' =>
    exact .parts directory name item (met.elim (hmet _) .inr) (hstep.trans walk)
      (hstep'.trans walk')

/-- A way goes alike through the directories and links that a tree has in common with a volume. -/
theorem of_kept (hkept : ∀ s i, v.item? s = some i → (∀ content, i ≠ .file content) →
    w.item? s = some i) (hv : v.IsTree) (follow : Bool) (hops : Nat) (here names : List String)
    (hhere : v.item? here = some .directory) : Abreast v w follow hops here names := by
  fun_induction walk v follow hops here names with
  | case1 hops here => exact .same (by rw [walk, walk, hkept _ _ hhere (by simp), hhere])
  | case2 hops here m rest hnot => simp [hhere, Item.isDirectory] at hnot
  | case3 hops here m rest _ hm ih =>
    exact (ih hhere).back (fun n hn => .inl (List.mem_cons_of_mem _ hn)) (walk_cons_skip hhere hm)
      (walk_cons_skip (hkept _ _ hhere (by simp)) hm)
  | case4 hops here rest _ _ ih =>
    exact (ih (hv.dropLast hhere)).back (fun n hn => .inl (List.mem_cons_of_mem _ hn))
      (walk_cons_up hhere) (walk_cons_up (hkept _ _ hhere (by simp)))
  | case5 hops here m rest _ hdot hup hlong =>
    exact .same ((walk_cons_long (hkept _ _ hhere (by simp)) hdot hup hlong).trans
      (walk_cons_long hhere hdot hup hlong).symm)
  | case6 hops here m rest _ hdot hup hshort there hi _
  | case7 hops here m rest _ hdot hup hshort there hi _ =>
    refine .parts hhere (isName_of_not hdot hup hshort) (fun i hi' => ?_)
      (.inl List.mem_cons_self) rfl rfl
    cases hi.symm.trans hi'
  | case8 hops here m rest _ hdot hup hshort there target hi hstop =>
    obtain ⟨rfl, rfl⟩ := link_ends_iff.1 hstop
    have hm := isName_of_not hdot hup hshort
    exact .same ((walk_link_end (hkept _ _ hhere (by simp)) hm (hkept _ _ hi (by simp))).trans
      (walk_link_end hhere hm hi).symm)
  | case9 here m rest _ hdot hup hshort there target hi hgo =>
    have hm := isName_of_not hdot hup hshort
    have hgo := link_followed_iff.1 hgo
    exact .same ((walk_link_exhausted (hkept _ _ hhere (by simp)) hm (hkept _ _ hi (by simp))
      hgo).trans (walk_link_exhausted hhere hm hi hgo).symm)
  | case10 here m rest _ hdot hup hshort there target hi hgo hops ih =>
    have hm := isName_of_not hdot hup hshort
    have hgo := link_followed_iff.1 hgo
    refine (ih ?_).back (fun n hn => ?_) (walk_cons_link hhere hm hi hgo)
      (walk_cons_link (hkept _ _ hhere (by simp)) hm (hkept _ _ hi (by simp)) hgo)
    · split
      · exact v.item?_nil
      · exact hhere
    · rcases List.mem_append.1 hn with hn | hn
      · exact .inr ⟨_, target, hi, hn⟩
      · exact .inl (List.mem_cons_of_mem _ hn)
  | case11 hops here m rest _ hdot hup hshort there content hi _
  | case12 hops here m rest _ hdot hup hshort there content hi _ =>
    refine .parts hhere (isName_of_not hdot hup hshort) (fun i hi' => ⟨content, ?_⟩)
      (.inl List.mem_cons_self) rfl rfl
    exact Option.some.inj (hi'.symm.trans hi)
  | case13 hops here m rest _ hdot hup hshort there hi ih =>
    have hm := isName_of_not hdot hup hshort
    exact (ih hi).back (fun n hn => .inl (List.mem_cons_of_mem _ hn))
      (walk_cons_directory hhere hm hi)
      (walk_cons_directory (hkept _ _ hhere (by simp)) hm (hkept _ _ hi (by simp)))

end Abreast

end CodeGraph.Volume
