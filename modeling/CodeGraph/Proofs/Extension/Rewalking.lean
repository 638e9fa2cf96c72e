import Mathlib.Data.List.Sort
import CodeGraph.Proofs.Extension.Caching
import CodeGraph.Proofs.Extension.Walks
import CodeGraph.Proofs.Ignore.Rereading

/-!
# Walks that are taken again

A walk sees what is at its root and below, but not the directory of this program's data (`Seen`), and
besides it is guided by the rules of ignore files there, above the root and of a person. So it comes to
the same entries as before (`Walk.entries_spared`) and a parse gives the same (`answerOf_spared`) after
a change that spares all that is seen, and elsewhere the files of other names than this program writes.
-/

namespace CodeGraph.FileTree

open Cache (Untaken)
open CodeGraph.Path (IsPlain)
open Ignore (Level Levels)
open Volume (LeftAlone)

/-- A place at the root of a walk or below, but not in the directory of this program's data. -/
def Seen (root q : List String) : Prop :=
  root <+: q ∧ ¬ root ++ [dataDirectory] <+: q

/-- A directory that may be walked for a person: no link is in the way, no file stands in the place
of the directory of a repository, and the person's own rules are in files that are in their place. -/
structure Walkable (root : List String) (person : Ignore.Person) (v : Volume) : Prop where
  unlinked : v.Unlinked
  leads : v.LeadsTo (Path.ofParts true root) root
  repository : ∀ q, v.contentAt? (q ++ [".git"]) = none
  settled : person.Settled v

variable {root names q : List String} {v w : Volume} {person : Ignore.Person} {n path : String}
  {hidden : Bool} {exclude : List Glob}

theorem seen_self (root : List String) : Seen root root := by
  refine ⟨List.prefix_refl root, fun h => ?_⟩
  have hlength := h.length_le
  simp at hlength

theorem Seen.concat (h : Seen root (root ++ names))
    (hn : (names ++ [n]).head? ≠ some dataDirectory) : Seen root (root ++ names ++ [n]) := by
  refine ⟨h.1.trans (List.prefix_append _ _), fun hdata => ?_⟩
  rcases names with _ | ⟨m, names⟩
  · rw [List.append_nil, List.prefix_append_right_inj] at hdata
    simp only [List.cons_prefix_cons, List.nil_prefix, and_true] at hdata
    exact hn (by simp [hdata])
  · rw [List.append_assoc, List.prefix_append_right_inj, List.cons_append,
      List.cons_prefix_cons] at hdata
    exact hn (by simp [hdata.1])

namespace Walk

/-! ## Depths -/

theorem length_le_depth (hq : (v.item? q).isSome) : q.length ≤ depth v := by
  by_cases hnil : q = []
  · simp [hnil]
  rw [Volume.item?_of_ne_nil _ hnil, Volume.lookup_isSome_iff] at hq
  obtain ⟨i, hi⟩ := hq
  have hfold : ∀ (l : List (List String × Item)) (n : Nat),
      n ≤ l.foldl (fun n e => max n e.1.length) n ∧
        ∀ e ∈ l, e.1.length ≤ l.foldl (fun n e => max n e.1.length) n := by
    intro l
    induction l with
    | nil => simp
    | cons e l ih =>
      intro n
      obtain ⟨hn, hl⟩ := ih (max n e.1.length)
      rw [List.foldl_cons]
      refine ⟨by omega, List.forall_mem_cons.2 ⟨by omega, hl⟩⟩
  exact (hfold v.entries 0).2 _ hi

/-! ## Names -/

theorem flatMap_filter {α : Type} {f : String → List α} {p : String → Bool} (l : List String)
    (h : ∀ n, p n = false → f n = []) : (l.filter p).flatMap f = l.flatMap f := by
  induction l with
  | nil => rfl
  | cons n l ih =>
    cases hn : p n with
    | true => rw [List.filter_cons_of_pos hn, List.flatMap_cons, List.flatMap_cons, ih]
    | false =>
      rw [List.filter_cons_of_neg (by simp [hn]), List.flatMap_cons, h n hn, List.nil_append, ih]

/-- At names that a walk leaves out there is nothing. -/
theorem within_of_isExcluded {w : Walk} (h : w.isExcluded (names ++ [n]) = true) (depth : Nat)
    (levels : Levels) (real : List String) (path : String) :
    w.within depth levels names real path n = [] := by
  unfold within
  simp only [h, Bool.not_true, Bool.and_false, Bool.false_eq_true, if_false]
  split <;> rfl

theorem isExcluded_of_head? {w : Walk} (h : (names ++ [n]).head? = some dataDirectory) :
    w.isExcluded (names ++ [n]) = true := by
  rw [isExcluded, h]
  simp

/-- The names that count in a directory are as before. -/
theorem names_spared (h : LeftAlone (Seen root) Untaken v w) (hq : Seen root (root ++ names)) :
    (NameSet.ofNames (w.children (root ++ names))).names.filter
        (fun n => (names ++ [n]).head? != some dataDirectory) =
      (NameSet.ofNames (v.children (root ++ names))).names.filter
        fun n => (names ++ [n]).head? != some dataDirectory := by
  refine List.Pairwise.eq_of_mem_iff (.filter _ (NameSet.ofNames _).pairwise_names)
    (.filter _ (NameSet.ofNames _).pairwise_names) fun n => ?_
  rw [List.mem_filter, List.mem_filter, NameSet.mem_names_ofNames, NameSet.mem_names_ofNames,
    Volume.mem_children, Volume.mem_children, and_congr_left_iff]
  intro hn
  rw [h.same _ (hq.concat (by simpa using hn))]

/-! ## Entries -/

/-- The entries in a directory are as before. Depths do not count as long as they reach everything. -/
theorem below_spared (hv : v.Unlinked) (h : LeftAlone (Seen root) Untaken v w)
    (hgit : ∀ q, v.contentAt? (q ++ [".git"]) = none) (depth depth' : Nat)
    (levels : Levels) (hq : Seen root (root ++ names)) (hp : v.Straight path (root ++ names))
    (hi : v.item? (root ++ names) = some .directory)
    (hdepth : Walk.depth v < depth + (root ++ names).length)
    (hdepth' : Walk.depth w < depth' + (root ++ names).length) :
    (⟨w, person, hidden, exclude⟩ : Walk).below depth' levels names (root ++ names) path =
      (⟨v, person, hidden, exclude⟩ : Walk).below depth levels names (root ++ names) path := by
  induction depth generalizing depth' levels names path with
  | zero =>
    have hlength := length_le_depth (v := v) (q := root ++ names) (by simp [hi])
    omega
  | succ depth ih =>
    have hlength := length_le_depth (v := w) (q := root ++ names) (by simp [h.directory _ hi])
    obtain ⟨depth', rfl⟩ : ∃ d, depth' = d + 1 := ⟨depth' - 1, by omega⟩
    rw [below_succ, below_succ,
      ← flatMap_filter (p := fun n => (names ++ [n]).head? != some dataDirectory) _ fun n hn =>
        within_of_isExcluded (isExcluded_of_head? (by simpa using hn)) _ _ _ _,
      ← flatMap_filter (p := fun n => (names ++ [n]).head? != some dataDirectory)
        (NameSet.ofNames (v.children (root ++ names))).names fun n hn =>
        within_of_isExcluded (isExcluded_of_head? (by simpa using hn)) _ _ _ _]
    simp only
    rw [names_spared h hq]
    refine List.flatMap_congr fun n hn => ?_
    obtain ⟨hmem, hhead⟩ := List.mem_filter.1 hn
    have hplain := hv.name _ _ (Volume.mem_children.1 (NameSet.mem_names_ofNames.1 hmem))
    have hseen := hq.concat (n := n) (by simpa using hhead)
    unfold within
    simp only [h.same _ hseen]
    rcases hitem : v.item? (root ++ names ++ [n]) with _ | (content | _ | target)
    · rfl
    · rfl
    · have hpath := hp.join hplain
      rw [List.append_assoc] at hseen hpath hitem
      have hlevel : levels.enter w (Path.join path n) = levels.enter v (Path.join path n) := by
        rw [Levels.enter, Levels.enter, Level.ofDirectory_spared hv h hpath (hgit _)]
      have hbelow := ih depth' (levels.enter v (Path.join path n)) hseen hpath hitem
        (by simp at hdepth ⊢; omega) (by simp at hdepth' ⊢; omega)
      simp only [hlevel, List.append_assoc, hbelow]
      rfl
    · rfl

/-- The entries of a walk are as before. -/
theorem entries_spared (hv : Walkable root person v) (h : LeftAlone (Seen root) Untaken v w) :
    (⟨w, person, hidden, exclude⟩ : Walk).entries (Path.ofParts true root) =
      (⟨v, person, hidden, exclude⟩ : Walk).entries (Path.ofParts true root) := by
  have hdash : Path.ofParts true root ≠ "-" := by
    intro hdash
    have hhead := congrArg (fun p : String => p.toList.head?) hdash
    simp [Path.ofParts] at hhead
  have hentries : ∀ {u : Volume}, u.Unlinked → u.LeadsTo (Path.ofParts true root) root →
      (⟨u, person, hidden, exclude⟩ : Walk).entries (Path.ofParts true root) =
        ⟨".", Path.ofParts true root, true⟩ ::
          (⟨u, person, hidden, exclude⟩ : Walk).below (depth u + 1)
            (.ofRoot u person (Path.ofParts true root)) [] root (Path.ofParts true root) := by
    intro u hu hlead
    have hfind : ∀ follow, u.find follow (Path.ofParts true root) = .ok (root, .directory) :=
      Volume.Straight.find (.leads hlead) hu hlead.short hlead.item?
    have hlink : u.linkMetadata (Path.ofParts true root) = .ok .directory := by
      rw [Volume.linkMetadata, hfind]
      rfl
    rw [entries, if_neg hdash]
    simp only [hlink, hfind]
  have hlead := h.leadsTo hv.unlinked hv.leads
  have hbelow : (⟨w, person, hidden, exclude⟩ : Walk).below (depth w + 1)
        (.ofRoot v person (Path.ofParts true root)) [] (root ++ []) (Path.ofParts true root) =
      (⟨v, person, hidden, exclude⟩ : Walk).below (depth v + 1)
        (.ofRoot v person (Path.ofParts true root)) [] (root ++ []) (Path.ofParts true root) :=
    below_spared hv.unlinked h hv.repository _ _ _
      (by rw [List.append_nil]; exact seen_self root)
      (by rw [List.append_nil]; exact .leads hv.leads)
      (by rw [List.append_nil]; exact hv.leads.item?) (by omega) (by omega)
  rw [List.append_nil] at hbelow
  rw [hentries hv.unlinked hv.leads, hentries h.unlinked hlead, Levels.ofRoot_spared hv.unlinked h
    hv.leads (fun q _ => hv.repository q) hv.settled, hbelow]

theorem exists_straight_of_mem_below {e : Entry} {depth : Nat} {levels : Levels} (hv : v.Unlinked)
    (hq : Seen root (root ++ names)) (hp : v.Straight path (root ++ names))
    (he : e ∈ (⟨v, person, hidden, exclude⟩ : Walk).below depth levels names (root ++ names) path) :
    ∃ q, v.Straight e.path q ∧ Seen root q := by
  induction depth generalizing levels names path with
  | zero => cases he
  | succ depth ih =>
    rw [below_succ] at he
    obtain ⟨n, hn, he⟩ := List.mem_flatMap.1 he
    have hplain := hv.name _ _ (Volume.mem_children.1 (NameSet.mem_names_ofNames.1 hn))
    have hpath := hp.join hplain
    by_cases hhead : (names ++ [n]).head? = some dataDirectory
    · rw [within_of_isExcluded (isExcluded_of_head? hhead)] at he
      cases he
    have hseen := hq.concat hhead
    unfold within at he
    simp only at he
    split at he
    · split at he
      · rcases List.mem_cons.1 he with rfl | he
        · exact ⟨_, hpath, hseen⟩
        · rw [List.append_assoc] at he hseen hpath
          exact ih hseen hpath he
      · cases he
    · split at he
      · obtain rfl := List.mem_singleton.1 he
        exact ⟨_, hpath, hseen⟩
      · cases he
    · cases he

/-- The paths of entries go straight on to what is seen. -/
theorem exists_straight_of_mem_entries {e : Entry} (hv : Walkable root person v)
    (he : e ∈ (⟨v, person, hidden, exclude⟩ : Walk).entries (Path.ofParts true root)) :
    ∃ q, v.Straight e.path q ∧ Seen root q := by
  have hroot : Seen root (root ++ []) := by
    rw [List.append_nil]
    exact seen_self root
  have hp : v.Straight (Path.ofParts true root) (root ++ []) := by
    rw [List.append_nil]
    exact .leads hv.leads
  have hfind : ∀ {i real}, v.find true (Path.ofParts true root) = .ok (real, i) →
      real = root ++ [] := fun hfind => (hp.of_find hv.unlinked hfind).1
  rw [entries] at he
  split at he
  · cases he
  split at he
  · next hreal =>
    obtain rfl := hfind hreal
    rcases List.mem_cons.1 he with rfl | he
    · exact ⟨_, hp, hroot⟩
    · exact exists_straight_of_mem_below hv.unlinked hroot hp he
  · obtain rfl := List.mem_singleton.1 he
    exact ⟨_, hp, hroot⟩
  · next hreal =>
    obtain rfl := hfind hreal
    exact exists_straight_of_mem_below hv.unlinked hroot hp he
  · cases he

end Walk

/-! ## What is read -/

section Reading

variable {settings : Settings} {e : Entry} {s t : Session} {c : ParseContext}

theorem contentIn?_eq (settings : Settings) (v : Volume) (e : Entry) :
    contentIn? settings v e =
      (v.readFile e.path).toOption.filter fun content => settings.takes content.size := by
  rw [contentIn?]
  rcases hfind : v.find true e.path with _ | ⟨q, content | _ | target⟩
  · simp only [Volume.metadata, Volume.readFile, hfind]
    rfl
  · have hmetadata : v.metadata e.path = .ok (.file content) := by
      rw [Volume.metadata, hfind]
      rfl
    have hread : v.readFile e.path = .ok content := by
      rw [Volume.readFile, hfind]
      rfl
    rw [hmetadata, hread]
    rfl
  all_goals
    have hread : (v.readFile e.path).toOption = none := by
      rw [Volume.readFile, hfind]
      rfl
    rw [hread, Volume.metadata, hfind]
    simp [bind, Except.bind, pure, Except.pure]

theorem contentIn?_spared (hv : v.Unlinked) (h : LeftAlone (Seen root) Untaken v w)
    (he : ∃ q, v.Straight e.path q ∧ Seen root q) :
    contentIn? settings w e = contentIn? settings v e := by
  obtain ⟨q, hp, hq⟩ := he
  rw [contentIn?_eq, contentIn?_eq, h.toOption_readFile hv hp (.inl hq)]

theorem given_congr {es : List Entry} (h : ∀ e ∈ es, metadataIn settings w e = metadataIn settings v e)
    (root : String) (p : Progress) (ids : IdGenerator) :
    given settings root w es p ids = given settings root v es p ids := by
  induction es generalizing p ids with
  | nil => rfl
  | cons e es ih =>
    obtain ⟨he, hes⟩ := List.forall_mem_cons.1 h
    rw [given, given, he, ih hes]

/-- **A parse gives the same and reads the same**. -/
theorem answerOf_spared (hv : Walkable root s.person s.drive.volume)
    (h : LeftAlone (Seen root) Untaken s.drive.volume t.drive.volume) (hids : t.ids = s.ids)
    (hperson : t.person = s.person) (hroot : c.root = Path.ofParts true root) :
    answerOf c t = answerOf c s ∧ sightings c t = sightings c s := by
  rw [answerOf, answerOf, sightings, sightings]
  rcases hsettings : readSettings c.settings with e | ⟨settings, exclude⟩
  · exact ⟨by rw [hids], rfl⟩
  have hentries : (walkOf t settings exclude).entries c.root =
      (walkOf s settings exclude).entries c.root := by
    rw [walkOf, walkOf, hperson, hroot]
    exact Walk.entries_spared hv h
  have hcontent : ∀ e ∈ (walkOf s settings exclude).entries c.root,
      contentIn? settings t.drive.volume e = contentIn? settings s.drive.volume e := by
    intro e he
    rw [hroot] at he
    exact contentIn?_spared hv.unlinked h (Walk.exists_straight_of_mem_entries hv he)
  have hmetadata : ∀ e ∈ (walkOf s settings exclude).entries c.root,
      metadataIn settings t.drive.volume e = metadataIn settings s.drive.volume e := by
    intro e he
    rw [metadataIn, metadataIn, hcontent e he]
  simp only [hentries, hids, given_congr hmetadata, true_and]
  refine List.filterMap_congr fun e he => ?_
  rw [sightingIn?, sightingIn?, hcontent e he]

end Reading

end CodeGraph.FileTree
