import Mathlib.Data.List.Induction
import CodeGraph.Proofs.Volume.Publishing

/-!
# Paths that go straight on

A path goes straight on from one to a directory if nothing but names that stand for themselves
follows (`Straight`). In a tree without links the place to which it goes then tells what it leads
to, also where directories on the way are missing: which file is read (`Straight.toOption_readFile`),
and which directories are made (`Straight.made_of_makeDirs`, `Straight.exists_makeDirs`).
-/

namespace CodeGraph.Volume

open CodeGraph.Path (IsPlain)

/-- What a file at a place holds. -/
def contentAt? (v : Volume) (q : List String) : Option ByteArray :=
  match v.item? q with
  | some (.file content) => some content
  | _ => none

/-- A path that goes on by names from one to a directory, and the place to which it goes. -/
inductive Straight (v : Volume) : String → List String → Prop
  | leads {p : String} {q : List String} (leads : v.LeadsTo p q) : Straight v p q
  | join {p n : String} {q : List String} (before : Straight v p q) (plain : IsPlain n) :
      Straight v (Path.join p n) (q ++ [n])

variable {v w : Volume} {p n : String} {q q' r : List String} {content : ByteArray}

theorem contentAt?_eq_some_iff :
    v.contentAt? q = some content ↔ v.item? q = some (.file content) := by
  rw [contentAt?]
  split
  · next hi => simp [hi]
  · next hi => simpa using hi content

theorem contentAt?_of_directory (h : v.item? q = some .directory) : v.contentAt? q = none := by
  rw [contentAt?, h]

theorem contentAt?_of_none (h : v.item? q = none) : v.contentAt? q = none := by
  rw [contentAt?, h]

theorem readFile_eq_ok_iff :
    v.readFile p = .ok content ↔ ∃ q, v.find true p = .ok (q, .file content) := by
  rw [readFile]
  constructor
  · intro h
    rcases hfind : v.find true p with e | ⟨q, old | _ | target⟩
    all_goals
      rw [hfind] at h
      cases h
    exact ⟨q, rfl⟩
  · rintro ⟨q, h⟩
    rw [h]
    rfl

namespace Straight

theorem ne_empty (h : v.Straight p q) : p ≠ "" := by
  induction h with
  | leads hlead => exact hlead.ne_empty
  | join _ plain ih => exact Path.join_ne_empty ih plain

theorem unended (h : v.Straight p q) : '\x00' ∉ p.toList := by
  induction h with
  | leads hlead => exact hlead.unended
  | join before plain ih => exact Path.unended_join before.ne_empty plain ih

theorem utf8ByteSize_le_join (hp : p ≠ "") (hn : IsPlain n) :
    p.utf8ByteSize ≤ (Path.join p n).utf8ByteSize := by
  rw [Path.join_plain hp hn]
  split
  all_goals
    simp only [String.utf8ByteSize_append]
    omega

/-- A path goes straight on where all directories and links are kept. -/
theorem kept (h : v.Straight p q) (hcurrent : w.current = v.current)
    (hkept : ∀ s i, v.item? s = some i → (∀ content, i ≠ .file content) → w.item? s = some i) :
    w.Straight p q := by
  induction h with
  | leads hlead => exact .leads (hlead.kept hcurrent hkept)
  | join _ plain ih => exact .join ih plain

theorem within (h : v.Straight p q) (hw : v.Within w) : w.Straight p q :=
  h.kept hw.current fun s i hi _ => hw.item s i hi

/-- Where there is a directory the path leads there. -/
theorem leadsTo (h : v.Straight p q) (hv : v.IsTree) (hlen : p.utf8ByteSize ≤ longestPath)
    (hi : v.item? q = some .directory) : v.LeadsTo p q := by
  induction h with
  | leads hlead => exact hlead
  | @join p n q before plain ih =>
    have hshort := utf8ByteSize_le_join before.ne_empty plain
    exact (ih (by omega) (hv.parent q n (by simp [hi]))).join plain hlen hi

/-- A path leads to no other directory. -/
theorem eq_of_leadsTo (h : v.Straight p q) (hv : v.Unlinked) (hlead : v.LeadsTo p q') : q' = q := by
  induction h generalizing q' with
  | leads hlead' => exact hlead.unique hlead'
  | @join p n q before plain ih =>
    obtain ⟨-, hlen, q₀, hq₀⟩ := LeadsTo.of_resolve_join before.ne_empty plain.isSegment hlead
    obtain rfl := ih hq₀
    rw [LeadsTo, hq₀.resolve_join plain hlen (hv.unlinked _)] at hlead
    simp only [Except.ok.injEq, Prod.mk.injEq] at hlead
    exact hlead.1.symm

/-- What is looked up is looked up at the place. -/
theorem of_resolve (h : v.Straight p q) (hv : v.Unlinked) {follow : Bool} {i : Option Item}
    (hresolve : v.resolve follow p = .ok (q', i)) : q' = q := by
  cases h with
  | leads hlead =>
    have hsame : v.resolve follow p = .ok (q, some .directory) := by
      cases follow with
      | true => exact hlead
      | false => rw [← hv.resolve_true, hlead]
    rw [hsame] at hresolve
    simp only [Except.ok.injEq, Prod.mk.injEq] at hresolve
    exact hresolve.1.symm
  | @join p n q before plain =>
    obtain ⟨-, hlen, q₀, hq₀⟩ := LeadsTo.of_resolve_join before.ne_empty plain.isSegment hresolve
    obtain rfl := before.eq_of_leadsTo hv hq₀
    rw [hq₀.resolve_join plain hlen (hv.unlinked _)] at hresolve
    simp only [Except.ok.injEq, Prod.mk.injEq] at hresolve
    exact hresolve.1.symm

/-- What is found is at the place. -/
theorem of_find (h : v.Straight p q) (hv : v.Unlinked) {follow : Bool} {i : Item}
    (hfind : v.find follow p = .ok (q', i)) : q' = q ∧ v.item? q = some i := by
  have hresolve := resolve_of_find hfind
  obtain rfl := h.of_resolve hv hresolve
  exact ⟨rfl, (resolve_eq_ok hresolve).symm⟩

/-- What is at the place is found. -/
theorem find (h : v.Straight p q) (hv : v.Unlinked) (hlen : p.utf8ByteSize ≤ longestPath)
    {i : Item} (hi : v.item? q = some i) (follow : Bool) : v.find follow p = .ok (q, i) := by
  cases h with
  | leads hlead =>
    have hresolve : v.resolve follow p = .ok (q, some .directory) := by
      cases follow with
      | true => exact hlead
      | false => rw [← hv.resolve_true, hlead]
    obtain rfl := Option.some.inj (hlead.item?.symm.trans hi)
    rw [Volume.find, hresolve]
    rfl
  | @join p n q before plain =>
    have hshort := utf8ByteSize_le_join before.ne_empty plain
    have hlead := before.leadsTo hv.toIsTree (by omega) (hv.parent q n (by simp [hi]))
    refine hlead.find_join plain hlen hi ?_ follow
    rintro target rfl
    exact hv.unlinked _ target hi

/-- There is something at a path if there is something at the place. -/
theorem isOk_metadata (h : v.Straight p q) (hv : v.Unlinked) :
    (v.metadata p).isOk = true ↔ p.utf8ByteSize ≤ longestPath ∧ (v.item? q).isSome = true := by
  rw [metadata]
  constructor
  · intro hok
    rcases hfind : v.find true p with e | ⟨q', i⟩
    · rw [hfind] at hok
      cases hok
    · obtain ⟨-, -, hlen, -⟩ := walk_of_resolve (resolve_of_find hfind)
      obtain ⟨rfl, hi⟩ := h.of_find hv hfind
      exact ⟨hlen, by rw [hi]; rfl⟩
  · rintro ⟨hlen, hitem⟩
    obtain ⟨i, hi⟩ := Option.isSome_iff_exists.1 hitem
    rw [h.find hv hlen hi true]
    rfl

/-- The file that is read is the one at the place. -/
theorem toOption_readFile (h : v.Straight p q) (hv : v.Unlinked) :
    (v.readFile p).toOption =
      if p.utf8ByteSize ≤ longestPath then v.contentAt? q else none := by
  refine Option.ext fun content => ?_
  have hread : (v.readFile p).toOption = some content ↔ v.readFile p = .ok content := by
    cases v.readFile p <;> simp [Except.toOption]
  rw [hread, readFile_eq_ok_iff, Option.ite_none_right_eq_some, contentAt?_eq_some_iff]
  constructor
  · rintro ⟨q', hfind⟩
    obtain ⟨-, -, hlen, -⟩ := walk_of_resolve (resolve_of_find hfind)
    exact ⟨hlen, (h.of_find hv hfind).2⟩
  · rintro ⟨hlen, hi⟩
    exact ⟨q, h.find hv hlen hi true⟩

/-- What is written is put at the place. -/
theorem of_writeFile (h : v.Straight p q) (hv : v.Unlinked)
    (hw : v.writeFile (Path.join p n) content = .ok w) (hn : IsSegment n) :
    IsPlain n ∧ v.LeadsTo p q ∧ v.item? (q ++ [n]) ≠ some .directory ∧
      w = v.put (q ++ [n]) (.file content) := by
  obtain ⟨hplain, -, q', hlead, hdir, hput⟩ :=
    exists_of_writeFile_join h.ne_empty hn (fun q target => hv.unlinked _ target) hw
  obtain rfl := h.eq_of_leadsTo hv hlead
  exact ⟨hplain, hlead, hdir, hput⟩

end Straight

/-! ## Absolute paths -/

/-- All that is above a directory is one. -/
theorem directory_above (hv : v.IsTree) (hi : v.item? q = some .directory) (hr : r <+: q) :
    v.item? r = some .directory := by
  by_cases hne : r = q
  · rw [hne, hi]
  · exact (hv.standing hi).above r hr hne

theorem intercalate_concat (hq : q ≠ []) :
    "/".intercalate (q ++ [n]) = "/".intercalate q ++ "/" ++ n := by
  induction q with
  | nil => exact absurd rfl hq
  | cons m q ih =>
    by_cases hnil : q = []
    · subst hnil
      simp [String.intercalate_cons_of_ne_nil]
    · rw [List.cons_append, String.intercalate_cons_of_ne_nil (by simp), ih hnil,
        String.intercalate_cons_of_ne_nil hnil]
      simp only [String.append_assoc]

/-- An absolute path with one name more is the path with the name joined to it. -/
theorem ofParts_concat (hq : ∀ m ∈ q, IsPlain m) (hn : IsPlain n) :
    Path.ofParts true (q ++ [n]) = Path.join (Path.ofParts true q) n := by
  induction q using List.reverseRecOn generalizing n with
  | nil =>
    have hroot : Path.ofParts true [] = "/" := by decide
    rw [hroot, Path.join_plain (by decide) hn, if_pos (by decide)]
    simp [Path.ofParts]
  | append_singleton q m ih =>
    obtain ⟨hq', hm⟩ := List.forall_mem_append.1 hq
    have hm := hm m (List.mem_singleton_self m)
    have hne : Path.ofParts true q ≠ "" := by simp [Path.ofParts]
    rw [ih hq' hm, Path.join_join hne hm hn, ← ih hq' hm, Path.ofParts,
      intercalate_concat (by simp)]
    simp only [Path.ofParts, String.append_assoc]

theorem isPlain_of_mem (hv : v.Unlinked) (hi : v.item? q = some .directory) {m : String}
    (hm : m ∈ q) : IsPlain m := by
  obtain ⟨front, back, rfl⟩ := List.append_of_mem hm
  refine hv.name front m ?_
  rw [directory_above hv.toIsTree hi ⟨back, by simp⟩]
  rfl

/-- The absolute path of a directory leads there. -/
theorem leadsTo_ofParts (hv : v.Unlinked) (hi : v.item? q = some .directory)
    (hlen : (Path.ofParts true q).utf8ByteSize ≤ longestPath) :
    v.LeadsTo (Path.ofParts true q) q := by
  induction q using List.reverseRecOn with
  | nil =>
    have hroot : Path.ofParts true [] = "/" := by decide
    have hsplit : Path.split "/" = ["", ""] := by decide
    rw [LeadsTo, hroot, resolve_eq_walk (by decide) (by decide) (by decide), hsplit,
      if_pos (by decide), walk_cons_skip hi (.inl rfl), walk_cons_skip hi (.inl rfl), walk, hi]
  | append_singleton q n ih =>
    have hn := hv.name q n (by simp [hi])
    have hq : ∀ m ∈ q, IsPlain m := fun m hm =>
      isPlain_of_mem hv hi (List.mem_append_left _ hm)
    rw [ofParts_concat hq hn] at hlen ⊢
    have hshort := Straight.utf8ByteSize_le_join (p := Path.ofParts true q)
      (by simp [Path.ofParts]) hn
    exact (ih (hv.parent q n (by simp [hi])) (Nat.le_trans hshort hlen)).join hn hlen hi

/-- With the absolute path of a directory those of the directories above lead to their places. -/
theorem leadsTo_ofParts_of_prefix (hv : v.Unlinked) (h : v.LeadsTo (Path.ofParts true q) q)
    (hr : r <+: q) : v.LeadsTo (Path.ofParts true r) r := by
  induction q using List.reverseRecOn with
  | nil => exact List.prefix_nil.1 hr ▸ h
  | append_singleton q n ih =>
    rcases List.prefix_concat_iff.1 hr with rfl | hr
    · exact h
    · have hn := isPlain_of_mem hv h.item? (List.mem_append_right q (List.mem_singleton_self n))
      have hq : ∀ m ∈ q, IsPlain m := fun m hm =>
        isPlain_of_mem hv h.item? (List.mem_append_left _ hm)
      have hlen := h.short
      rw [ofParts_concat hq hn] at hlen
      have hshort := Straight.utf8ByteSize_le_join (p := Path.ofParts true q)
        (by simp [Path.ofParts]) hn
      exact ih (leadsTo_ofParts hv (hv.parent q n (by simp [h.item?]))
        (Nat.le_trans hshort hlen)) hr

/-! ## Making directories -/

/-- The directories on the way to a place that were missing are there, and nothing else is new. -/
def Made (v : Volume) (q : List String) (w : Volume) : Prop :=
  ∀ r, w.item? r = if v.item? r = none ∧ r <+: q then some .directory else v.item? r

theorem Made.self (hv : v.IsTree) (hi : v.item? q = some .directory) : v.Made q v := by
  intro r
  rw [if_neg]
  rintro ⟨hnone, hr⟩
  rw [directory_above hv hi hr] at hnone
  cases hnone

/-- In the innermost of these directories nothing is new. -/
theorem Made.item?_concat (h : v.Made q w) (n : String) :
    w.item? (q ++ [n]) = v.item? (q ++ [n]) := by
  rw [h, if_neg]
  rintro ⟨-, hlonger⟩
  exact absurd hlonger.length_le (by simp)

theorem Made.put (h : v.Made q w) (hi : v.item? (q ++ [n]) = none) :
    v.Made (q ++ [n]) (w.put (q ++ [n]) .directory) := by
  intro r
  rw [item?_put w (by simp)]
  by_cases hr : r = q ++ [n]
  · rw [if_pos hr, hr, if_pos ⟨hi, List.prefix_refl _⟩]
  · rw [if_neg hr, h r]
    simp only [List.prefix_concat_iff, hr, false_or]

namespace Straight

/-- Where a file is in the way no directory is made. -/
theorem makeDirs_join_of_file (hlead : v.LeadsTo p q) (hn : IsPlain n)
    (hlen : (Path.join p n).utf8ByteSize ≤ longestPath)
    (hi : v.item? (q ++ [n]) = some (.file content)) : v.makeDirs (Path.join p n) ≠ .ok w := by
  have hresolve := hlead.resolve_ofParts hn hlen (by simp [hi])
  have hdir : v.isDirectory (Path.ofParts (Path.isAbsolute p) (Path.parts p ++ [n])) = false := by
    rw [isDirectory, metadata, Volume.find, hresolve, hi]
    rfl
  rw [makeDirs, ancestry_join hlead.ne_empty hn, makeDirsOf, makeDir, hresolve, hi]
  intro h
  simp only [bind, Except.bind, hdir] at h
  cases h

/-- Nothing is found behind a path unless it leads to a directory. -/
theorem resolve_ofParts_ne_ok (h : v.Straight p q) (hv : v.Unlinked) (hn : IsPlain n)
    (hi : v.item? q ≠ some .directory) (hlen : p.utf8ByteSize ≤ longestPath) (follow : Bool)
    (found : List String × Option Item) :
    v.resolve follow (Path.ofParts (Path.isAbsolute p) (Path.parts p ++ [n])) ≠ .ok found := by
  intro hresolve
  obtain ⟨-, -, -, habs, hsplit⟩ := spelling_ofParts h.ne_empty h.unended hn
  obtain ⟨-, -, -, hwalk⟩ := walk_of_resolve hresolve
  rw [habs, hsplit] at hwalk
  obtain ⟨-, q', hq'⟩ := exists_of_walk_concat hn.ne_empty hn.ne_dot hn.ne_up hwalk
  have hlead : v.LeadsTo p q' := by
    rw [LeadsTo, resolve_eq_walk h.ne_empty h.unended hlen]
    exact walk_of_filter_eq hq' _ (filter_counts_rooted_parts p).symm
  obtain rfl := h.eq_of_leadsTo hv hlead
  exact hi hlead.item?

/-- A directory in one that is missing is made after that. -/
theorem exists_of_makeDirs_join (h : v.Straight p q) (hv : v.Unlinked) (hn : IsPlain n)
    (hi : v.item? q ≠ some .directory) (hlen : p.utf8ByteSize ≤ longestPath)
    (hw : v.makeDirs (Path.join p n) = .ok w) : ∃ u, v.makeDirs p = .ok u ∧ ∀ u',
      u.makeDir (Path.ofParts (Path.isAbsolute p) (Path.parts p ++ [n])) = .ok u' → w = u' := by
  have hnot := h.resolve_ofParts_ne_ok hv hn hi hlen
  have hnotDir :
      v.isDirectory (Path.ofParts (Path.isAbsolute p) (Path.parts p ++ [n])) = false := by
    rw [isDirectory, metadata, Volume.find]
    rcases hfound : v.resolve true (Path.ofParts (Path.isAbsolute p) (Path.parts p ++ [n])) with
      e | found
    · rfl
    · exact absurd hfound (hnot true found)
  rw [makeDirs, ancestry_join h.ne_empty hn, makeDirsOf, makeDir] at hw
  rcases hresolve : v.resolve false (Path.ofParts (Path.isAbsolute p) (Path.parts p ++ [n])) with
    e | found
  · simp only [hresolve, bind, Except.bind] at hw
    split at hw
    · next hok => cases hok
    · rcases hrest : v.makeDirs p with e | u
      · rw [show v.makeDirsOf (ancestry p) = .error e from hrest] at hw
        cases hw
      · rw [show v.makeDirsOf (ancestry p) = .ok u from hrest] at hw
        refine ⟨u, rfl, fun u' hu' => ?_⟩
        simp only [hu'] at hw
        exact (Except.ok.inj hw).symm
    · rw [hnotDir] at hw
      cases hw
  · exact absurd hresolve (hnot false found)

/-- The directories that are made are those that were missing on the way. -/
theorem made_of_makeDirs (h : v.Straight p q) (hv : v.Unlinked)
    (hlen : p.utf8ByteSize ≤ longestPath) (hw : v.makeDirs p = .ok w) :
    w.LeadsTo p q ∧ v.Made q w := by
  induction h generalizing w with
  | @leads p q hlead =>
    obtain rfl : v = w := Except.ok.inj (hlead.makeDirs.symm.trans hw)
    exact ⟨hlead, .self hv.toIsTree hlead.item?⟩
  | @join p n q before plain ih =>
    have hshort : p.utf8ByteSize ≤ longestPath :=
      Nat.le_trans (utf8ByteSize_le_join before.ne_empty plain) hlen
    have hput : ∀ {u : Volume}, u.LeadsTo p q → u.item? (q ++ [n]) = none →
        (u.put (q ++ [n]) .directory).LeadsTo (Path.join p n) (q ++ [n]) :=
      fun hlead hnone => (hlead.within (within_put (by simp) hnone)).join plain hlen
        (by rw [item?_put _ (by simp), if_pos rfl])
    by_cases hdir : v.item? q = some .directory
    · have hlead := before.leadsTo hv.toIsTree hshort hdir
      rcases hitem : v.item? (q ++ [n]) with _ | (content | _ | target)
      · obtain rfl := Except.ok.inj ((hlead.makeDirs_join plain hlen hitem).symm.trans hw)
        exact ⟨hput hlead hitem, (Made.self hv.toIsTree hdir).put hitem⟩
      · exact absurd hw (makeDirs_join_of_file hlead plain hlen hitem)
      · obtain rfl :=
          Except.ok.inj ((hlead.makeDirs_join_of_directory plain hlen hitem).symm.trans hw)
        exact ⟨hlead.join plain hlen hitem, .self hv.toIsTree hitem⟩
      · exact absurd hitem (hv.unlinked _ target)
    · -- Nothing is found in a directory that is missing, so those above it are made first.
      obtain ⟨u, hu, hmake⟩ := before.exists_of_makeDirs_join hv plain hdir hshort hw
      obtain ⟨hlead, hmade⟩ := ih hshort hu
      have hmissing := hv.item?_behind hdir n
      have hnone : u.item? (q ++ [n]) = none := (hmade.item?_concat n).trans hmissing
      have hnext : u.makeDir (Path.ofParts (Path.isAbsolute p) (Path.parts p ++ [n])) =
          .ok (u.put (q ++ [n]) .directory) := by
        rw [makeDir, hlead.resolve_ofParts plain hlen (by simp [hnone]), hnone]
        rfl
      obtain rfl := hmake _ hnext
      exact ⟨hput hlead hnone, hmade.put hmissing⟩

/-- What is left of making directories that cannot all be made has been made for a path to one of those
above. -/
theorem dirsLeft_cases (h : v.Straight p q) :
    v.dirsLeft p = v ∨ ∃ p' q', v.Straight p' q' ∧ q' <+: q ∧ p'.utf8ByteSize ≤ p.utf8ByteSize ∧
      v.makeDirs p' = .ok (v.dirsLeft p) := by
  induction h with
  | @leads p q hlead => exact .inl hlead.dirsLeft
  | @join p n q before plain ih =>
    have hshort := utf8ByteSize_le_join before.ne_empty plain
    rw [dirsLeft, ancestry_join before.ne_empty plain, dirsLeftOf]
    split
    · split
      · next w hrest =>
        exact .inr ⟨p, q, before, List.prefix_append _ _, hshort, hrest⟩
      · rcases ih with heq | ⟨p', q', hp', hq', hle, hmake⟩
        · exact .inl heq
        · exact .inr ⟨p', q', hp', hq'.trans (List.prefix_append _ _), Nat.le_trans hle hshort, hmake⟩
    · exact .inl rfl

/-- A directory is missing for want of it or of one above it. -/
theorem readDir_missing (h : v.Straight p q) (hv : v.Unlinked)
    (hlen : p.utf8ByteSize ≤ longestPath)
    (hfree : ∀ r, r <+: q → v.contentAt? r = none) (hi : v.item? q = none) :
    v.readDir p = .error .notFound := by
  induction h with
  | leads hlead =>
    rw [hlead.item?] at hi
    cases hi
  | @join p n q before plain ih =>
    have hshort : p.utf8ByteSize ≤ longestPath :=
      Nat.le_trans (utf8ByteSize_le_join before.ne_empty plain) hlen
    have hfree' : ∀ r, r <+: q → v.contentAt? r = none := fun r hr =>
      hfree r (hr.trans (List.prefix_append _ _))
    rw [readDir]
    rcases hitem : v.item? q with _ | (content | _ | target)
    · rw [Volume.find, resolve_join_missing hv.toIsTree (ih hshort hfree' hitem) before.ne_empty
        before.unended hshort plain.isSegment hlen]
      rfl
    · have hnone := hfree' q (List.prefix_refl _)
      rw [contentAt?_eq_some_iff.2 hitem] at hnone
      cases hnone
    · rw [(before.leadsTo hv.toIsTree hshort hitem).find_join_missing plain hlen hi]
      rfl
    · exact absurd hitem (hv.unlinked _ target)

/-- Directories are made unless a file is in the way. -/
theorem exists_makeDirs (h : v.Straight p q) (hv : v.Unlinked)
    (hlen : p.utf8ByteSize ≤ longestPath)
    (hfree : ∀ r, r <+: q → v.contentAt? r = none) : ∃ w, v.makeDirs p = .ok w := by
  induction h with
  | leads hlead => exact ⟨v, hlead.makeDirs⟩
  | @join p n q before plain ih =>
    have hshort : p.utf8ByteSize ≤ longestPath :=
      Nat.le_trans (utf8ByteSize_le_join before.ne_empty plain) hlen
    have hfree' : ∀ r, r <+: q → v.contentAt? r = none := fun r hr =>
      hfree r (hr.trans (List.prefix_append _ _))
    have hfile : ∀ {r content}, r <+: q ++ [n] → v.item? r ≠ some (.file content) := by
      intro r content hr hi
      have hnone := hfree r hr
      rw [contentAt?_eq_some_iff.2 hi] at hnone
      cases hnone
    rcases hitem : v.item? q with _ | (content | _ | target)
    · obtain ⟨u, hu⟩ := ih hshort hfree'
      obtain ⟨hlead, hmade⟩ := before.made_of_makeDirs hv hshort hu
      refine ⟨_, makeDirs_join_missing plain hv.toIsTree
        (before.readDir_missing hv hshort hfree' hitem) hu hlead hlen ?_⟩
      rw [hmade.item?_concat, hv.item?_behind (by simp [hitem])]
    · exact absurd hitem (hfile (List.prefix_append _ _))
    · have hlead := before.leadsTo hv.toIsTree hshort hitem
      rcases hbelow : v.item? (q ++ [n]) with _ | (content | _ | target)
      · exact ⟨_, hlead.makeDirs_join plain hlen hbelow⟩
      · exact absurd hbelow (hfile (List.prefix_refl _))
      · exact ⟨v, hlead.makeDirs_join_of_directory plain hlen hbelow⟩
      · exact absurd hbelow (hv.unlinked _ target)
    · exact absurd hitem (hv.unlinked _ target)

end Straight

end CodeGraph.Volume
