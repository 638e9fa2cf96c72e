import Mathlib.Algebra.GroupWithZero.Nat
import CodeGraph.Proofs.Volume.Walk

/-!
# The spelling of paths

A path is its names with slashes between them (`intercalate_split`). Joining a name adds it to the
names that count (`exists_split_join`), and to the parts of a path (`parts_join`). Writing the parts
of a path out again keeps the names that count and makes the path no longer (`filter_counts_parts`,
`utf8ByteSize_ofParts_le`).
-/

namespace CodeGraph.Path

open Volume (counts IsName IsSegment)

/-- A name that stands for itself wherever it is joined to a path. -/
structure IsPlain (n : String) : Prop extends IsName n where
  unslashed : '/' ∉ n.toList
  unended : '\x00' ∉ n.toList

theorem isPlain_iff {n : String} : IsPlain n ↔ n ≠ "" ∧ n ≠ "." ∧ n ≠ ".." ∧
    n.utf8ByteSize ≤ Volume.longestName ∧ '/' ∉ n.toList ∧ '\x00' ∉ n.toList :=
  ⟨fun h => ⟨h.ne_empty, h.ne_dot, h.ne_up, h.short, h.unslashed, h.unended⟩,
    fun ⟨hempty, hdot, hup, hshort, hslash, hend⟩ => ⟨⟨hempty, hdot, hup, hshort⟩, hslash, hend⟩⟩

instance (n : String) : Decidable (IsPlain n) :=
  decidable_of_iff _ isPlain_iff.symm

theorem IsPlain.isSegment {n : String} (hn : IsPlain n) : IsSegment n :=
  ⟨hn.ne_empty, hn.ne_dot, hn.ne_up, hn.unslashed, hn.unended⟩

/-! ## Splitting -/

theorem split_ne_nil (p : String) : split p ≠ [] := by
  simp [split]

theorem split_unslashed {n : String} (hn : '/' ∉ n.toList) : split n = [n] := by
  simp [split, List.splitOn_eq_singleton hn]

theorem split_append_slash (p q : String) : split (p ++ "/" ++ q) = split p ++ split q := by
  have hchars : (p ++ "/" ++ q).toList = p.toList ++ '/' :: q.toList := by
    simp
  rw [split, hchars, List.splitOn_append_cons_self, List.map_append]
  rfl

theorem intercalate_split (p : String) : "/".intercalate (split p) = p := by
  apply String.toList_injective
  rw [String.toList_intercalate, split, List.map_map]
  have hmap : String.toList ∘ String.ofList = id := by
    funext l
    simp
  rw [hmap, List.map_id]
  exact List.intercalate_splitOn '/'

theorem split_intercalate {names : List String} (hnames : ∀ n ∈ names, '/' ∉ n.toList)
    (hne : names ≠ []) : split ("/".intercalate names) = names := by
  rw [split, String.toList_intercalate]
  have hslash : "/".toList = ['/'] := rfl
  rw [hslash, List.splitOn_intercalate '/' (by simpa using hnames) (by simpa using hne),
    List.map_map]
  have hmap : String.ofList ∘ String.toList = id := by
    funext s
    simp
  rw [hmap, List.map_id]

theorem unslashed_of_mem_splitOn {l : List Char} {n : List Char} (hn : n ∈ l.splitOn '/') :
    '/' ∉ n := by
  induction l generalizing n with
  | nil =>
    simp only [List.splitOn_nil, List.mem_singleton] at hn
    simp [hn]
  | cons c l ih =>
    rw [List.splitOn_cons_eq_if_modifyHead] at hn
    split at hn
    · rcases List.mem_cons.1 hn with rfl | hn
      · simp
      · exact ih hn
    · next hc =>
      obtain ⟨first, others, hsplit⟩ := List.exists_cons_of_ne_nil (List.splitOn_ne_nil '/' l)
      rw [hsplit, List.modifyHead_cons] at hn
      rcases List.mem_cons.1 hn with rfl | hn
      · have hfirst := ih (hsplit ▸ List.mem_cons_self ..)
        simp only [List.mem_cons, not_or]
        exact ⟨fun h => hc (beq_iff_eq.2 h.symm), hfirst⟩
      · exact ih (hsplit ▸ List.mem_cons_of_mem _ hn)

theorem unslashed_of_mem_split {p n : String} (hn : n ∈ split p) : '/' ∉ n.toList := by
  obtain ⟨l, hl, rfl⟩ := List.mem_map.1 hn
  simpa using unslashed_of_mem_splitOn hl

theorem mem_intercalate {c : Char} (hc : c ≠ '/') {names : List String} :
    c ∈ ("/".intercalate names).toList ↔ ∃ n ∈ names, c ∈ n.toList := by
  induction names with
  | nil => simp
  | cons a names ih =>
    by_cases hne : names = []
    · simp [hne]
    · rw [String.intercalate_cons_of_ne_nil hne, String.toList_append, String.toList_append,
        List.mem_append, List.mem_append, ih]
      simp [hc]

/-! ## Parts -/

theorem filter_counts_parts (p : String) : (parts p).filter counts = (split p).filter counts := by
  have hcounts : ∀ l : List String,
      (l.filter (· != "")).filter counts = l.filter counts := fun l => by
    rw [List.filter_filter]
    congr 1
    funext n
    simp only [counts]
    cases n != "" <;> simp
  have hdots : ∀ l : List String,
      (l.filter (· != ".")).filter counts = l.filter counts := fun l => by
    rw [List.filter_filter]
    congr 1
    funext n
    simp only [counts]
    cases n != "." <;> simp
  rw [← hcounts (split p), parts]
  cases hfilter : (split p).filter (· != "") with
  | nil => rfl
  | cons a rest =>
    rw [List.filter_append, hdots, List.filter_cons]
    by_cases ha : a = "."
    · subst ha
      have hdot : counts "." = false := by decide
      rw [hdot]
      split <;> simp [hdot]
    · simp only [ha, false_and, if_false, List.filter_cons, List.filter_nil]
      split <;> simp

/-- The parts of a path are some of its names, in their order, and none of them is empty. -/
theorem parts_sublist (p : String) : (parts p).Sublist ((split p).filter (· != "")) := by
  rw [parts]
  cases (split p).filter (· != "") with
  | nil => exact List.Sublist.refl _
  | cons a rest =>
    have hrest := List.filter_sublist (p := (· != ".")) (l := rest)
    show List.Sublist ((if a = "." ∧ isAbsolute p then [] else [a]) ++ rest.filter (· != "."))
      ([a] ++ rest)
    refine List.Sublist.append ?_ hrest
    split
    · exact List.nil_sublist _
    · exact List.Sublist.refl _

theorem mem_split_of_mem_parts {p n : String} (hn : n ∈ parts p) : n ∈ split p :=
  (List.mem_filter.1 ((parts_sublist p).mem hn)).1

theorem ne_empty_of_mem_parts {p n : String} (hn : n ∈ parts p) : n ≠ "" := by
  simpa using (List.mem_filter.1 ((parts_sublist p).mem hn)).2

theorem isAbsolute_append {p q : String} (hp : p ≠ "") : isAbsolute (p ++ q) = isAbsolute p := by
  obtain ⟨c, l, hl⟩ := List.exists_cons_of_ne_nil
    (show p.toList ≠ [] from fun h => hp (String.toList_inj.1 h))
  simp [isAbsolute, hl]

theorem isAbsolute_of_unslashed {n : String} (hn : '/' ∉ n.toList) : isAbsolute n = false := by
  rw [isAbsolute, beq_eq_false_iff_ne]
  exact fun h => hn (List.mem_of_mem_head? (Option.mem_def.2 h))

theorem isAbsolute_ofParts (absolute : Bool) {names : List String} (hne : names ≠ [])
    (hempty : ∀ n ∈ names, n ≠ "") (hslash : ∀ n ∈ names, '/' ∉ n.toList) :
    isAbsolute (ofParts absolute names) = absolute := by
  cases absolute with
  | true => simp [isAbsolute, ofParts]
  | false =>
    obtain ⟨a, rest, rfl⟩ := List.exists_cons_of_ne_nil hne
    have ha := isAbsolute_of_unslashed (hslash a (List.mem_cons_self ..))
    simp only [ofParts, Bool.false_eq_true, if_false, String.empty_append]
    by_cases hrest : rest = []
    · rwa [hrest, String.intercalate_singleton]
    · rw [String.intercalate_cons_of_ne_nil hrest, String.append_assoc,
        isAbsolute_append (hempty a (List.mem_cons_self ..)), ha]

theorem split_ofParts (absolute : Bool) {names : List String} (hne : names ≠ [])
    (hslash : ∀ n ∈ names, '/' ∉ n.toList) :
    split (ofParts absolute names) = (if absolute then [""] else []) ++ names := by
  have hnames := split_intercalate hslash hne
  cases absolute with
  | false => simpa [ofParts] using hnames
  | true =>
    have hsplit := split_append_slash "" ("/".intercalate names)
    rwa [hnames, split_unslashed (n := "") (by decide), String.empty_append] at hsplit

/-! ## Lengths -/

/-- The bytes of names with a slash after each. -/
def weight (names : List String) : Nat :=
  (names.map fun n => n.utf8ByteSize + 1).sum

theorem weight_cons (n : String) (names : List String) :
    weight (n :: names) = n.utf8ByteSize + 1 + weight names := by
  simp [weight]

theorem utf8ByteSize_intercalate {names : List String} (hne : names ≠ []) :
    ("/".intercalate names).utf8ByteSize + 1 = weight names := by
  induction names with
  | nil => exact absurd rfl hne
  | cons a names ih =>
    by_cases hnames : names = []
    · simp [weight, hnames]
    · have hslash : "/".utf8ByteSize = 1 := by decide
      rw [String.intercalate_cons_of_ne_nil hnames, String.utf8ByteSize_append,
        String.utf8ByteSize_append, weight_cons, ← ih hnames, hslash]
      omega

theorem weight_split (p : String) : weight (split p) = p.utf8ByteSize + 1 := by
  rw [← utf8ByteSize_intercalate (split_ne_nil p), intercalate_split]

theorem weight_le_of_sublist {a b : List String} (h : a.Sublist b) : weight a ≤ weight b := by
  induction h with
  | slnil => exact Nat.le_refl _
  | cons n _ ih =>
    rw [weight_cons]
    omega
  | cons_cons n _ ih =>
    rw [weight_cons, weight_cons]
    omega

theorem split_of_isAbsolute {p : String} (hp : isAbsolute p = true) :
    ∃ rest, split p = "" :: rest := by
  have hhead : p.toList.head? = some '/' := by simpa [isAbsolute] using hp
  obtain ⟨l, hl⟩ := List.head?_eq_some_iff.1 hhead
  rw [split, hl, List.splitOn_cons_eq_if_modifyHead, if_pos (by simp)]
  exact ⟨_, rfl⟩

/-- A path written out from its parts is no longer than it was. -/
theorem utf8ByteSize_ofParts_le {p : String} (hp : parts p ≠ []) :
    (ofParts (isAbsolute p) (parts p)).utf8ByteSize ≤ p.utf8ByteSize := by
  have hnames := utf8ByteSize_intercalate hp
  have hsplit := weight_split p
  have hslash : "/".utf8ByteSize = 1 := by decide
  have hempty : "".utf8ByteSize = 0 := by decide
  rw [ofParts, String.utf8ByteSize_append]
  cases habs : isAbsolute p with
  | false =>
    have hle := weight_le_of_sublist ((parts_sublist p).trans List.filter_sublist)
    simp only [Bool.false_eq_true, if_false, hempty]
    omega
  | true =>
    obtain ⟨rest, hrest⟩ := split_of_isAbsolute habs
    have hsub : (parts p).Sublist rest := by
      refine (parts_sublist p).trans ?_
      rw [hrest, List.filter_cons]
      exact List.filter_sublist
    have hle := weight_le_of_sublist hsub
    rw [hrest, weight_cons, hempty] at hsplit
    simp only [if_true, hslash]
    omega

theorem unended_ofParts {p : String} (hp : '\x00' ∉ p.toList) :
    '\x00' ∉ (ofParts (isAbsolute p) (parts p)).toList := by
  have hnames : '\x00' ∉ ("/".intercalate (parts p)).toList := fun h => by
    obtain ⟨n, hn, hc⟩ := (mem_intercalate (by decide)).1 h
    have := (mem_intercalate (by decide)).2 ⟨n, mem_split_of_mem_parts hn, hc⟩
    rw [intercalate_split] at this
    exact hp this
  rw [ofParts]
  split <;> simpa using hnames

/-! ## Joining -/

/-- A joined path ends as what has been joined to it. -/
theorem exists_join_eq (p q : String) : ∃ front, join p q = front ++ q := by
  rw [join]
  split
  · exact ⟨"", by rw [String.empty_append]⟩
  split
  · exact ⟨p, rfl⟩
  · exact ⟨p ++ "/", rfl⟩

/-- What ends a path without a slash ends its last name. -/
theorem exists_split_append (p : String) {e : String} (he : '/' ∉ e.toList) :
    ∃ front n, split (p ++ e) = front ++ [n ++ e] := by
  by_cases hp : '/' ∈ p.toList
  · -- What stands behind the last slash is the last name.
    obtain ⟨back, front, hsplit, hback⟩ := List.eq_append_cons_of_mem (List.mem_reverse.2 hp)
    have hp' : p = String.ofList front.reverse ++ "/" ++ String.ofList back.reverse := by
      apply String.toList_injective
      have hreverse := congrArg List.reverse hsplit
      simpa using hreverse
    have hlast : '/' ∉ (String.ofList back.reverse ++ e).toList := by
      simp [hback, he]
    refine ⟨split (String.ofList front.reverse), String.ofList back.reverse, ?_⟩
    rw [hp', String.append_assoc, split_append_slash, split_unslashed hlast]
  · have hall : '/' ∉ (p ++ e).toList := by
      simp [hp, he]
    exact ⟨[], p, by rw [split_unslashed hall, List.nil_append]⟩

/-- A path and a name joined are split into the names of the path that count, and some that do not,
and the name. -/
theorem exists_split_join_names (p : String) :
    ∃ a, a.filter (· != "") = (split p).filter (· != "") ∧
      ∀ n, '/' ∉ n.toList → split (join p n) = a ++ [n] := by
  by_cases hp : p = ""
  · subst hp
    refine ⟨[], by decide, fun n hn => ?_⟩
    rw [join, if_pos (.inr rfl), split_unslashed hn, List.nil_append]
  by_cases hlast : p.toList.getLast? = some '/'
  · obtain ⟨front, hfront⟩ := List.getLast?_eq_some_iff.1 hlast
    have hp' : p = String.ofList front ++ "/" := by
      apply String.toList_injective
      simp [hfront]
    refine ⟨split (String.ofList front), ?_, fun n hn => ?_⟩
    · have hsplit := split_append_slash (String.ofList front) ""
      rw [String.append_empty, ← hp', split_unslashed (n := "") (by decide)] at hsplit
      simp [hsplit]
    · have hjoin : join p n = String.ofList front ++ "/" ++ n := by
        simp [join, isAbsolute_of_unslashed hn, hp, hlast, ← hp']
      rw [hjoin, split_append_slash, split_unslashed hn]
  · refine ⟨split p, rfl, fun n hn => ?_⟩
    have hjoin : join p n = p ++ "/" ++ n := by
      simp [join, isAbsolute_of_unslashed hn, hp, hlast]
    rw [hjoin, split_append_slash, split_unslashed hn]

theorem exists_split_join_unslashed {p n : String} (hn : '/' ∉ n.toList) :
    ∃ a, split (join p n) = a ++ [n] ∧ a.filter (· != "") = (split p).filter (· != "") := by
  obtain ⟨a, hfilter, ha⟩ := exists_split_join_names p
  exact ⟨a, ha n hn, hfilter⟩

/-- The last name that a path is split into, if it stands for itself, is the last name of the
path. -/
theorem fileName?_of_split {p n : String} {names : List String} (hsplit : split p = names ++ [n])
    (hn : IsSegment n) : fileName? p = some n := by
  have hfilter : (split p).filter (· != "") = names.filter (· != "") ++ [n] := by
    rw [hsplit, List.filter_append]
    simp [hn.ne_empty]
  have hlast : (parts p).getLast? = some n := by
    rw [parts, hfilter]
    cases names.filter (· != "") with
    | nil => simp [hn.ne_dot]
    | cons b rest => simp [hn.ne_dot, List.getLast?_append]
  rw [fileName?, hlast]
  split
  · next heq => exact absurd (Option.some.inj heq) hn.ne_up
  · next heq => exact absurd (Option.some.inj heq) hn.ne_dot
  · rfl

/-- The last name of a path that a name is joined to is the name. -/
theorem fileName?_join {n : String} (p : String) (hn : IsSegment n) :
    fileName? (join p n) = some n := by
  obtain ⟨a, -, ha⟩ := exists_split_join_names p
  exact fileName?_of_split (ha n hn.unslashed) hn

/-- A name is parted at its last point, if there is something before it. -/
theorem splitName_append {stem extension : String} (hstem : stem ≠ "")
    (hpoint : '.' ∉ extension.toList) :
    splitName (stem ++ "." ++ extension) = (stem, some extension) := by
  have hback : (stem ++ "." ++ extension).toList.reverse =
      extension.toList.reverse ++ '.' :: stem.toList.reverse := by
    simp
  have hafter : (stem ++ "." ++ extension).toList.reverse.takeWhile (· != '.') =
      extension.toList.reverse := by
    rw [hback, List.takeWhile_append_of_pos, List.takeWhile_cons_of_neg (by simp), List.append_nil]
    intro c hc
    rw [bne_iff_ne]
    rintro rfl
    exact hpoint (List.mem_reverse.1 hc)
  have hbefore : stem.toList.reverse.isEmpty = false := by
    rw [List.isEmpty_eq_false_iff]
    exact fun hnil => hstem (String.toList_eq_nil_iff.1 (List.reverse_eq_nil_iff.1 hnil))
  rw [splitName, hafter, hback, List.drop_left]
  simp [hbefore]

/-- A joined name is given another extension behind its stem. -/
theorem withExtension_join {n extension : String} (p : String) (hn : IsSegment n)
    (hstem : '/' ∉ ((splitName n).1 ++ "." ++ extension).toList) (hextension : extension ≠ "") :
    withExtension (join p n) extension = join p ((splitName n).1 ++ "." ++ extension) := by
  obtain ⟨a, -, ha⟩ := exists_split_join_names p
  have hnames : (split (join p n)).reverse.dropWhile (fun m => m == "" || m == ".") =
      n :: a.reverse := by
    rw [ha n hn.unslashed]
    simp [hn.ne_empty, hn.ne_dot]
  rw [withExtension, fileName?_join p hn, hnames]
  simp only [hextension, if_false, List.reverse_reverse]
  rw [← ha _ hstem, intercalate_split]

section Join

variable {p n : String} (hp : p ≠ "")

include hp

section Unslashed

variable (hn : '/' ∉ n.toList)

include hn

theorem join_unslashed :
    join p n = if p.toList.getLast? = some '/' then p ++ n else p ++ "/" ++ n := by
  simp [join, isAbsolute_of_unslashed hn, hp]

theorem isAbsolute_join_unslashed : isAbsolute (join p n) = isAbsolute p := by
  rw [join_unslashed hp hn]
  split
  · exact isAbsolute_append hp
  · rw [String.append_assoc, isAbsolute_append hp]

theorem join_ne_empty_unslashed : join p n ≠ "" := by
  rw [join_unslashed hp hn]
  split <;> simp [hp]

variable (hne : n ≠ "")

include hne

/-- A joined path ends as the name does, with no slash. -/
theorem getLast?_join_unslashed : (join p n).toList.getLast? ≠ some '/' := by
  have hlast : n.toList.getLast? ≠ some '/' := fun h => hn (List.mem_of_getLast? h)
  have happend : ∀ s : String, (s ++ n).toList.getLast? = n.toList.getLast? := fun s => by
    have hne' : n.toList ≠ [] := fun h => hne (String.toList_inj.1 h)
    obtain ⟨c, hc⟩ := Option.ne_none_iff_exists'.1 (mt List.getLast?_eq_none_iff.1 hne')
    rw [String.toList_append, List.getLast?_append, hc, Option.some_or]
  rw [join_unslashed hp hn]
  split <;> rwa [happend]

theorem join_join_unslashed {m : String} (hm : '/' ∉ m.toList) :
    join (join p n) m = join p n ++ "/" ++ m := by
  rw [join_unslashed (join_ne_empty_unslashed hp hn) hm,
    if_neg (getLast?_join_unslashed hp hn hne)]

end Unslashed

variable (hn : IsPlain n)

include hn

theorem join_plain :
    join p n = if p.toList.getLast? = some '/' then p ++ n else p ++ "/" ++ n :=
  join_unslashed hp hn.unslashed

theorem isAbsolute_join : isAbsolute (join p n) = isAbsolute p :=
  isAbsolute_join_unslashed hp hn.unslashed

omit hp in
theorem exists_split_join :
    ∃ a, split (join p n) = a ++ [n] ∧
      a.filter (· != "") = (split p).filter (· != "") :=
  exists_split_join_unslashed hn.unslashed

theorem utf8ByteSize_join_le :
    (join p n).utf8ByteSize ≤ p.utf8ByteSize + 1 + n.utf8ByteSize := by
  have hslash : "/".utf8ByteSize = 1 := by decide
  rw [join_plain hp hn]
  split
  · rw [String.utf8ByteSize_append]
    omega
  · exact Nat.le_of_eq (by rw [String.utf8ByteSize_append, String.utf8ByteSize_append, hslash])

theorem unended_join (hp' : '\x00' ∉ p.toList) : '\x00' ∉ (join p n).toList := by
  rw [join_plain hp hn]
  split <;> simp [hp', hn.unended]

theorem join_ne_empty : join p n ≠ "" :=
  join_ne_empty_unslashed hp hn.unslashed

theorem join_join {m : String} (hm : IsPlain m) :
    join (join p n) m = join p n ++ "/" ++ m :=
  join_join_unslashed hp hn.unslashed hn.ne_empty hm.unslashed

theorem parts_join : parts (join p n) = parts p ++ [n] := by
  obtain ⟨a, hsplit, ha⟩ := exists_split_join (p := p) hn
  have hfilter : (split (join p n)).filter (· != "") = (split p).filter (· != "") ++ [n] := by
    rw [hsplit, List.filter_append, ha]
    simp [hn.ne_empty]
  rw [parts, parts, hfilter, isAbsolute_join hp hn]
  cases (split p).filter (· != "") with
  | nil => simp [hn.ne_dot]
  | cons b rest => simp [hn.ne_dot]

end Join

theorem filter_counts_of_filter_ne_empty {a b : List String}
    (h : a.filter (· != "") = b.filter (· != "")) : a.filter counts = b.filter counts := by
  have hcounts : ∀ l : List String,
      l.filter counts = (l.filter (· != "")).filter counts := fun l => by
    rw [List.filter_filter]
    congr 1
    funext n
    simp only [counts]
    cases n != "" <;> simp
  rw [hcounts, h, ← hcounts]

end CodeGraph.Path
