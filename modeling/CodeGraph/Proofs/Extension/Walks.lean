import CodeGraph.Proofs.Extension.Facts
import CodeGraph.Proofs.Volume.Standing

/-!
# The entries of a walk

A walk comes to a directory before it comes to what is in it, to no path twice, and to nothing at or
below a path that is left out. `Walked` says so of a list of entries, one entry after the other, and
`walked_entries` says it of the entries of a walk whose root is a directory. How the rules of ignore
files decide plays no part.

The path of an entry is told by names (`relativeOf`). Names stand for themselves, so the path tells
the names (`relativeOf_inj`) and those of the directory that the entry is in
(`parentOf?_relativeOf`).
-/

namespace CodeGraph

namespace Volume

/-- A directory that a path leads to without a link at its end is found either way. -/
theorem exists_find_of_linkMetadata {v : Volume} {p : String}
    (h : v.linkMetadata p = .ok .directory) : ∃ q, v.find true p = .ok (q, .directory) := by
  rw [linkMetadata] at h
  rcases hfind : v.find false p with e | ⟨q, i⟩
  · rw [hfind] at h
    cases h
  · rw [hfind] at h
    obtain rfl : i = .directory := Except.ok.inj h
    have hresolve := resolve_of_find hfind
    have hnot : ∀ r target, v.resolve false p ≠ .ok (r, some (.link target)) := by
      intro r target hlink
      rw [hresolve] at hlink
      cases hlink
    refine ⟨q, ?_⟩
    rw [find, resolve_eq_of_not_link hnot, ← find, hfind]

end Volume

namespace FileTree

open CodeGraph.Path (IsPlain)

/-! ## Paths from the root on -/

/-- The path that is told by names from the root on; that of the root itself is a point. -/
def relativeOf (names : List String) : String :=
  if names = [] then "." else Path.ofParts false names

variable {names names' : List String} {n : String}

@[simp] theorem relativeOf_nil : relativeOf [] = "." := rfl

theorem relativeOf_of_ne_nil (h : names ≠ []) : relativeOf names = Path.ofParts false names :=
  if_neg h

theorem split_relativeOf (hnames : ∀ m ∈ names, IsPlain m) (hne : names ≠ []) :
    Path.split (relativeOf names) = names := by
  rw [relativeOf_of_ne_nil hne, Path.split_ofParts false hne fun m hm => (hnames m hm).unslashed]
  rfl

theorem relativeOf_ne_dot (hnames : ∀ m ∈ names, IsPlain m) (hne : names ≠ []) :
    relativeOf names ≠ "." := by
  intro h
  have hsplit := split_relativeOf hnames hne
  rw [h] at hsplit
  have hdot : "." ∈ names := by
    rw [← hsplit]
    decide
  exact (hnames "." hdot).ne_dot rfl

theorem relativeOf_inj (hnames : ∀ m ∈ names, IsPlain m) (hnames' : ∀ m ∈ names', IsPlain m)
    (h : relativeOf names = relativeOf names') : names = names' := by
  by_cases hne : names = []
  · subst hne
    by_contra hne'
    exact relativeOf_ne_dot hnames' (fun hnil => hne' hnil.symm) h.symm
  · have hne' : names' ≠ [] := by
      rintro rfl
      exact relativeOf_ne_dot hnames hne h
    rw [← split_relativeOf hnames hne, h, split_relativeOf hnames' hne']

/-- An entry is in the directory whose path is told by all names but the last one. -/
theorem parentOf?_relativeOf (hnames : ∀ m ∈ names ++ [n], IsPlain m) (path : String)
    (isDirectory : Bool) :
    parentOf? ⟨relativeOf (names ++ [n]), path, isDirectory⟩ = some (relativeOf names) := by
  have hne : names ++ [n] ≠ [] := by simp
  rw [parentOf?, if_neg (relativeOf_ne_dot hnames hne)]
  simp only [split_relativeOf hnames hne, List.dropLast_concat]
  unfold relativeOf
  cases names with
  | nil => rfl
  | cons m names => simp [Path.ofParts]

/-! ## Walks -/

/-- The entries that a walk with a root comes to, up to some point: first the root, and then in turn
something in a directory that it has come to, which it has not come to before and does not leave
out. -/
inductive Walked (w : Walk) (root : String) : List Entry → Prop
  | root : Walked w root [⟨".", root, true⟩]
  | into {l : List Entry} {names : List String} {n path path' : String} {isDirectory : Bool}
      (before : Walked w root l) (directory : ⟨relativeOf names, path, true⟩ ∈ l)
      (plain : ∀ m ∈ names ++ [n], IsPlain m)
      (new : ∀ e ∈ l, e.relative ≠ relativeOf (names ++ [n]))
      (kept : w.isExcluded (names ++ [n]) = false) :
      Walked w root (l ++ [⟨relativeOf (names ++ [n]), path', isDirectory⟩])

namespace Walk

variable {w : Walk} {depth : Nat} {levels : Ignore.Levels} {real : List String} {path : String}
  {e : Entry}

/-- The entries of a walk at a name in a directory and below. -/
def within (w : Walk) (depth : Nat) (levels : Ignore.Levels) (names real : List String)
    (path n : String) : List Entry :=
  let entry (isDirectory : Bool) : Entry :=
    ⟨Path.ofParts false (names ++ [n]), Path.join path n, isDirectory⟩
  match w.volume.item? (real ++ [n]) with
  | some .directory =>
    if w.permitted levels (Path.join path n) n true && !w.isExcluded (names ++ [n]) then
      entry true :: w.below depth (levels.enter w.volume (Path.join path n)) (names ++ [n])
        (real ++ [n]) (Path.join path n)
    else []
  | some (.file _) =>
    if w.permitted levels (Path.join path n) n false && !w.isExcluded (names ++ [n]) then
      [entry false]
    else []
  | _ => []

theorem below_succ (w : Walk) (depth : Nat) (levels : Ignore.Levels) (names real : List String)
    (path : String) : w.below (depth + 1) levels names real path =
      (NameSet.ofNames (w.volume.children real)).names.flatMap
        (w.within depth levels names real path) := rfl

/-- At a name there is nothing, or an entry with what is below it. -/
theorem within_cases (w : Walk) (depth : Nat) (levels : Ignore.Levels) (names real : List String)
    (path n : String) :
    w.within depth levels names real path n = [] ∨
      w.isExcluded (names ++ [n]) = false ∧
      ((∃ path', w.within depth levels names real path n =
          [⟨relativeOf (names ++ [n]), path', false⟩]) ∨
        ∃ levels' path', w.within depth levels names real path n =
          ⟨relativeOf (names ++ [n]), path', true⟩ ::
            w.below depth levels' (names ++ [n]) (real ++ [n]) path') := by
  have hrelative : relativeOf (names ++ [n]) = Path.ofParts false (names ++ [n]) :=
    relativeOf_of_ne_nil (by simp)
  unfold within
  simp only [hrelative]
  split
  · split
    · next hkept =>
      refine .inr ⟨?_, .inr ⟨_, _, rfl⟩⟩
      simpa using (Bool.and_eq_true_iff.1 hkept).2
    · exact .inl rfl
  · split
    · next hkept =>
      refine .inr ⟨?_, .inl ⟨_, rfl⟩⟩
      simpa using (Bool.and_eq_true_iff.1 hkept).2
    · exact .inl rfl
  · exact .inl rfl

theorem isPlain_of_mem_names (hw : w.volume.PlainNames) {q : List String}
    (hn : n ∈ (NameSet.ofNames (w.volume.children q)).names) : IsPlain n :=
  hw q n (Volume.mem_children.1 (NameSet.mem_names_ofNames.1 hn))

/-- What a name leads to has a path that goes on from that of its directory, if what is one level
further down does. -/
theorem exists_of_mem_within_of
    (hbelow : ∀ levels names real path, e ∈ w.below depth levels names real path →
      ∃ m rest, (∀ x ∈ m :: rest, IsPlain x) ∧ e.relative = relativeOf (names ++ m :: rest))
    (he : e ∈ w.within depth levels names real path n) :
    ∃ rest, (∀ m ∈ rest, IsPlain m) ∧ e.relative = relativeOf (names ++ n :: rest) := by
  rcases w.within_cases depth levels names real path n with
    hnone | ⟨-, ⟨path', hfile⟩ | ⟨levels', path', hdirectory⟩⟩
  · rw [hnone] at he
    cases he
  · rw [hfile] at he
    obtain rfl := List.mem_singleton.1 he
    exact ⟨[], by simp, rfl⟩
  · rw [hdirectory] at he
    rcases List.mem_cons.1 he with rfl | he
    · exact ⟨[], by simp, rfl⟩
    · obtain ⟨m, rest, hrest, he⟩ := hbelow _ _ _ _ he
      exact ⟨m :: rest, hrest, by rw [he, List.append_assoc]; rfl⟩

/-- What is below a directory has a path that goes on from that of the directory. -/
theorem exists_of_mem_below (hw : w.volume.PlainNames)
    (he : e ∈ w.below depth levels names real path) :
    ∃ n rest, (∀ m ∈ n :: rest, IsPlain m) ∧ e.relative = relativeOf (names ++ n :: rest) := by
  induction depth generalizing levels names real path with
  | zero => cases he
  | succ depth ih =>
    rw [below_succ] at he
    obtain ⟨n, hn, he⟩ := List.mem_flatMap.1 he
    obtain ⟨rest, hrest, he⟩ := exists_of_mem_within_of (fun _ _ _ _ => ih) he
    exact ⟨n, rest, List.forall_mem_cons.2 ⟨isPlain_of_mem_names hw hn, hrest⟩, he⟩

theorem exists_of_mem_within (hw : w.volume.PlainNames)
    (he : e ∈ w.within depth levels names real path n) :
    ∃ rest, (∀ m ∈ rest, IsPlain m) ∧ e.relative = relativeOf (names ++ n :: rest) :=
  exists_of_mem_within_of (fun _ _ _ _ => exists_of_mem_below hw) he

end Walk

namespace Walked

variable {w : Walk} {root : String} {l : List Entry} {e : Entry} {ns : List String}

/-- Nothing has been come to yet under some names of a directory. -/
def Unvisited (l : List Entry) (names : List String) (ns : List String) : Prop :=
  ∀ e ∈ l, ∀ n ∈ ns, ∀ rest, (∀ m ∈ rest, IsPlain m) → e.relative ≠ relativeOf (names ++ n :: rest)

/-- A directory is come to before what is in it. -/
theorem Unvisited.inside (h : Unvisited l names [n]) (hnames : ∀ m ∈ names ++ [n], IsPlain m)
    (he : e.relative = relativeOf (names ++ [n])) {m : String} (hm : IsPlain m) :
    Unvisited (l ++ [e]) (names ++ [n]) [m] := by
  intro e' he' m' hm' rest hrest
  rw [List.mem_singleton.1 hm']
  rcases List.mem_append.1 he' with he' | he'
  · rw [List.append_assoc]
    exact h e' he' n (List.mem_singleton_self _) (m :: rest) (List.forall_mem_cons.2 ⟨hm, hrest⟩)
  · rw [List.mem_singleton.1 he', he]
    intro heq
    have hlonger : ∀ x ∈ (names ++ [n]) ++ m :: rest, IsPlain x :=
      List.forall_mem_append.2 ⟨hnames, List.forall_mem_cons.2 ⟨hm, hrest⟩⟩
    have hlength := congrArg List.length (relativeOf_inj hnames hlonger heq)
    simp at hlength

/-- What a walk comes to under one name has another name in the place of those that are still to
come. -/
theorem Unvisited.beside (hw : w.volume.PlainNames) (h : Unvisited l names (n :: ns))
    (hnames : ∀ m ∈ names, IsPlain m) (hplain : ∀ m ∈ n :: ns, IsPlain m)
    (hlt : ∀ m ∈ ns, n < m) (depth : Nat) (levels : Ignore.Levels) (real : List String)
    (path : String) : Unvisited (l ++ w.within depth levels names real path n) names ns := by
  intro e he m hm rest hrest
  rcases List.mem_append.1 he with he | he
  · exact h e he m (List.mem_cons_of_mem _ hm) rest hrest
  · obtain ⟨rest', hrest', hrelative⟩ := Walk.exists_of_mem_within hw he
    rw [hrelative]
    intro heq
    have hplains : ∀ a ∈ n :: ns, ∀ more, (∀ x ∈ more, IsPlain x) →
        ∀ x ∈ names ++ a :: more, IsPlain x := fun a ha more hmore =>
      List.forall_mem_append.2 ⟨hnames, List.forall_mem_cons.2 ⟨hplain a ha, hmore⟩⟩
    have hsame := List.append_cancel_left
      (relativeOf_inj (hplains n List.mem_cons_self rest' hrest')
        (hplains m (List.mem_cons_of_mem _ hm) rest hrest) heq)
    obtain ⟨rfl, -⟩ := List.cons_eq_cons.1 hsame
    exact String.lt_irrefl _ (hlt n hm)

/-- A walk goes on with what is below a directory that it has come to. -/
theorem append_below (hw : w.volume.PlainNames) (depth : Nat) (h : Walked w root l)
    {levels : Ignore.Levels} {real : List String} {path directory : String}
    (hnames : ∀ m ∈ names, IsPlain m) (hdirectory : ⟨relativeOf names, directory, true⟩ ∈ l)
    (hnew : ∀ n, IsPlain n → Unvisited l names [n]) :
    Walked w root (l ++ w.below depth levels names real path) := by
  induction depth generalizing l levels names real path directory with
  | zero => simpa [Walk.below] using h
  | succ depth ih =>
    rw [Walk.below_succ]
    have hsorted := (NameSet.ofNames (w.volume.children real)).pairwise_names
    have hplain : ∀ n ∈ (NameSet.ofNames (w.volume.children real)).names, IsPlain n :=
      fun n hn => Walk.isPlain_of_mem_names hw hn
    have hunvisited : Unvisited l names (NameSet.ofNames (w.volume.children real)).names :=
      fun e he n hn => hnew n (hplain n hn) e he n (List.mem_singleton_self n)
    clear hnew
    -- The names of the directory are taken in turn, each with all that is below it.
    generalize (NameSet.ofNames (w.volume.children real)).names = ns at hsorted hplain hunvisited
    induction ns generalizing l directory with
    | nil => simpa using h
    | cons n ns ihNames =>
      obtain ⟨hn, hns⟩ := List.forall_mem_cons.1 hplain
      obtain ⟨hlt, hsorted⟩ := List.pairwise_cons.1 hsorted
      have hnames' : ∀ m ∈ names ++ [n], IsPlain m :=
        List.forall_mem_append.2 ⟨hnames, by simpa using hn⟩
      have hthis : Unvisited l names [n] := fun e he m hm =>
        hunvisited e he m (List.mem_singleton.1 hm ▸ List.mem_cons_self)
      have hself : Walked w root (l ++ w.within depth levels names real path n) := by
        have hfresh : ∀ e ∈ l, e.relative ≠ relativeOf (names ++ [n]) :=
          fun e he => hthis e he n (List.mem_singleton_self n) [] (by simp)
        rcases w.within_cases depth levels names real path n with
          hnone | ⟨hkept, ⟨path', hfile⟩ | ⟨levels', path', hinside⟩⟩
        · simpa [hnone] using h
        · rw [hfile]
          exact h.into hdirectory hnames' hfresh hkept
        · rw [hinside, List.append_cons]
          exact ih (h.into hdirectory hnames' hfresh hkept) hnames'
            (List.mem_append_right _ (List.mem_singleton_self _)) fun m hm =>
              hthis.inside hnames' rfl hm
      rw [List.flatMap_cons, ← List.append_assoc]
      exact ihNames hself (List.mem_append_left _ hdirectory) hsorted hns
        (hunvisited.beside hw hnames hplain hlt depth levels real path)

/-- No path is come to twice. -/
theorem nodup_relative (h : Walked w root l) : (l.map (·.relative)).Nodup := by
  induction h with
  | root => simp
  | into _ _ _ new _ ih =>
    rw [List.map_append, List.nodup_append]
    refine ⟨ih, by simp, ?_⟩
    intro a ha b hb
    obtain ⟨e, he, rfl⟩ := List.mem_map.1 ha
    obtain rfl : b = _ := by simpa using hb
    exact new e he

/-- What is come to has a path that nothing leaves out, nor the path of a directory above it. -/
theorem kept_of_mem (h : Walked w root l) (he : e ∈ l) :
    ∃ names, (∀ m ∈ names, IsPlain m) ∧ e.relative = relativeOf names ∧
      ∀ above, above <+: names → above ≠ [] → w.isExcluded above = false := by
  induction h generalizing e with
  | root =>
    obtain rfl := List.mem_singleton.1 he
    refine ⟨[], by simp, rfl, ?_⟩
    intro above habove hne
    exact absurd (List.prefix_nil.1 habove) hne
  | @into l names n path path' isDirectory _ directory plain _ kept ih =>
    rcases List.mem_append.1 he with he | he
    · exact ih he
    · obtain rfl := List.mem_singleton.1 he
      refine ⟨names ++ [n], plain, rfl, ?_⟩
      intro above habove hne
      rcases List.prefix_concat_iff.1 habove with rfl | habove
      · exact kept
      · obtain ⟨names', hplain', hrelative, hkept⟩ := ih directory
        have hnames : names = names' :=
          relativeOf_inj (fun m hm => plain m (List.mem_append_left _ hm)) hplain' hrelative
        exact hkept above (hnames ▸ habove) hne

end Walked

/-- The root and what is in it and below. -/
theorem walked_below_root {w : Walk} {root : String} (hw : w.volume.PlainNames) (depth : Nat)
    (levels : Ignore.Levels) (real : List String) :
    Walked w root (⟨".", root, true⟩ :: w.below depth levels [] real root) := by
  have htop : Walked w root [⟨relativeOf [], root, true⟩] := .root
  refine htop.append_below hw _ (by simp) (List.mem_singleton_self _) ?_
  intro n hn e he m hm rest hrest
  obtain rfl := List.mem_singleton.1 he
  obtain rfl := List.mem_singleton.1 hm
  exact (relativeOf_ne_dot (List.forall_mem_cons.2 ⟨hn, hrest⟩) (by simp)).symm

/-- The entries of a walk whose root is a directory. A lone dash is not taken for the name of one. -/
theorem walked_entries {w : Walk} {root : String} (hw : w.volume.PlainNames)
    (hroot : w.volume.linkMetadata root = .ok .directory) (hdash : root ≠ "-") :
    Walked w root (w.entries root) := by
  obtain ⟨real, hfind⟩ := Volume.exists_find_of_linkMetadata hroot
  rw [Walk.entries, if_neg hdash]
  simp only [hroot, hfind]
  exact walked_below_root hw _ _ _

/-- What a walk comes to whose root is a link to a directory is what is in the directory and below, not
the root. -/
theorem walked_entries_of_link {w : Walk} {root target : String} {real : List String}
    (hw : w.volume.PlainNames) (hlink : w.volume.linkMetadata root = .ok (.link target))
    (hfind : w.volume.find true root = .ok (real, .directory)) (hdash : root ≠ "-") :
    Walked w root (⟨".", root, true⟩ :: w.entries root) := by
  rw [Walk.entries, if_neg hdash]
  simp only [hlink, hfind]
  exact walked_below_root hw _ _ _

end FileTree

end CodeGraph
