import CodeGraph.Proofs.Cache.Frames
import CodeGraph.Proofs.Volume.Unlinked

/-!
# Files that are not the cache's

The disk layer writes under the names of digests, but it takes away by endings: a scan goes through
every sub-directory and removes what ends like an unfinished file and what ends like a value and has no
sidecar beside it. So files are lost that the disk layer has not written (`DiskCache.stats_takes_notes`).

What is left alone whatever the directory holds, whatever calls are made but clearing and whatever
faults are met (`DiskCache.runs_spare_foreign`) is what ends in neither way, wherever it is, and of the
rest what no path of the disk layer leads to (`Foreign`): what is not directly in a sub-directory of the
directory, and there what is a sidecar, or a value with its sidecar, of a digest that belongs in another
sub-directory.
-/

namespace CodeGraph.Cache

open DiskCache (valueEnding sidecarEnding unfinishedEnding shard? withoutEnding?)
open CodeGraph.Path (IsPlain)

/-! ## Endings -/

/-- Whether a name ends like that of no file of an entry, finished or not. -/
def Alien (name : String) : Prop :=
  withoutEnding? valueEnding name = none ∧ withoutEnding? unfinishedEnding name = none

/-- A place whose name is that of no file of an entry, finished or not. -/
def Untaken (q : List String) : Prop :=
  ∀ n ∈ q.getLast?, Alien n

theorem untaken_concat {q : List String} {n : String} : Untaken (q ++ [n]) ↔ Alien n := by
  simp [Untaken]

theorem ne_append_of_withoutEnding? {ending name d : String}
    (h : withoutEnding? ending name = none) : name ≠ d ++ ending := by
  intro heq
  rw [withoutEnding?_eq_some_iff.2 heq] at h
  cases h

/-- A sidecar ends like a value too. -/
theorem sidecarEnding_eq : sidecarEnding = ".meta" ++ valueEnding := by decide

theorem Alien.ne_append {name d e : String} (h : Alien name)
    (he : e = valueEnding ∨ e = sidecarEnding ∨ e = unfinishedEnding) : name ≠ d ++ e := by
  rcases he with rfl | rfl | rfl
  · exact ne_append_of_withoutEnding? h.1
  · rw [sidecarEnding_eq, ← String.append_assoc]
    exact ne_append_of_withoutEnding? h.1
  · exact ne_append_of_withoutEnding? h.2

theorem exists_of_swept {names : List String} {name : String} (h : Swept names name) :
    ∃ d e, (e = valueEnding ∨ e = unfinishedEnding) ∧ name = d ++ e := by
  rcases h with h | ⟨-, -, d, hd, -⟩
  · obtain ⟨d, hd⟩ := Option.isSome_iff_exists.1 h
    exact ⟨d, unfinishedEnding, .inr rfl, withoutEnding?_eq_some_iff.1 hd⟩
  · exact ⟨d, valueEnding, .inl rfl, withoutEnding?_eq_some_iff.1 hd⟩

theorem ending_spec {e : String}
    (he : e = valueEnding ∨ e = sidecarEnding ∨ e = unfinishedEnding) :
    '/' ∉ e.toList ∧ 2 < e.toList.length := by
  rcases he with rfl | rfl | rfl <;> decide

theorem endings_of_entry {e : String} (he : e = valueEnding ∨ e = sidecarEnding) :
    e ∈ endings ∧ e ++ unfinishedEnding ∈ endings := by
  rcases he with rfl | rfl <;> decide

/-! ## Files of another kind -/

/-- No symbolic link has the name of an unfinished file of an entry. -/
def Undrafted (v : Volume) : Prop :=
  ∀ p d e target, IsDigest d → e = valueEnding ∨ e = sidecarEnding →
    v.item? (p ++ [d ++ (e ++ unfinishedEnding)]) ≠ some (.link target)

/-- A file that is there in a volume without links under unfinished names. -/
structure Spares (q : List String) (content : ByteArray) (v : Volume) : Prop where
  standing : v.Standing q (.file content)
  undrafted : Undrafted v

section Kind

variable {v w : Volume} {q r p : List String} {i : Item} {j : Option Item} {content : ByteArray}
  {d e dir : String}

theorem Spares.remove (h : Spares q content v) (hr : v.item? r ≠ some .directory) (hne : r ≠ q) :
    Spares q content (v.remove r) := by
  refine ⟨h.standing.remove hr hne, ?_⟩
  intro p d e target hd he hlink
  exact h.undrafted p d e target hd he (Volume.item?_of_remove hlink)

theorem Spares.put (h : Spares q content v) (hr : v.item? r ≠ some .directory) (hne : r ≠ q)
    (hi : ∀ target, i ≠ .link target) : Spares q content (v.put r i) := by
  have hr' : r ≠ [] := by
    rintro rfl
    exact hr (Volume.item?_nil v)
  refine ⟨h.standing.put hr hne i, ?_⟩
  intro p d e target hd he hlink
  rw [Volume.item?_put v hr'] at hlink
  split at hlink
  · exact hi target (Option.some.inj hlink)
  · exact h.undrafted p d e target hd he hlink

theorem Spares.makeDir (h : Spares q content v) {path : String} (hw : v.makeDir path = .ok w) :
    Spares q content w := by
  refine ⟨h.standing.within (Volume.within_makeDir hw), ?_⟩
  intro p d e target hd he hlink
  obtain ⟨r, -, hr, rfl⟩ := Volume.exists_put_of_makeDir hw
  rw [Volume.item?_put v hr] at hlink
  split at hlink
  · cases hlink
  · exact h.undrafted p d e target hd he hlink

/-- Where the unfinished file of an entry is looked up. -/
theorem resolve_unfinished (dir : String) (hv : Undrafted v) (hd : IsDigest d)
    (he : e = valueEnding ∨ e = sidecarEnding) :
    v.resolve true (filePath dir d e ++ unfinishedEnding) =
        v.resolve false (filePath dir d e ++ unfinishedEnding) ∧
      ∀ r i, v.resolve false (filePath dir d e ++ unfinishedEnding) = .ok (r, i) →
        (∃ front, r = front ++ [d ++ (e ++ unfinishedEnding)]) ∧
          ∀ target, i ≠ some (.link target) := by
  have hmem := endings_of_entry he
  have hplace : ∀ r i, v.resolve false (filePath dir d e ++ unfinishedEnding) = .ok (r, i) →
      (∃ front, r = front ++ [d ++ (e ++ unfinishedEnding)]) ∧
        ∀ target, i ≠ some (.link target) := by
    intro r i hr
    rw [Shelf.filePath_append dir hd hmem.1 hmem.2, filePath] at hr
    obtain ⟨front, rfl⟩ := Volume.exists_of_resolve_name (hd.isPlain_append hmem.2) hr
    refine ⟨⟨front, rfl⟩, ?_⟩
    rintro target rfl
    exact hv front d e target hd he (Volume.resolve_eq_ok hr).symm
  refine ⟨Volume.resolve_eq_of_not_link ?_, hplace⟩
  intro r target hr
  exact (hplace r _ hr).2 target rfl

/-- A file of another kind is at none of the places that are changed. -/
theorem frame_spares {front : List String} {name : String} (hname : Alien name) :
    Frame dir (Spares (front ++ [name]) content) fun _ => True := by
  have hother : ∀ {r : List String} {n e : String} {back : List String},
      e = valueEnding ∨ e = sidecarEnding ∨ e = unfinishedEnding → r = back ++ [n ++ e] →
      r ≠ front ++ [name] := by
    rintro r n e back he rfl heq
    exact hname.ne_append he (List.append_inj' heq rfl |>.2 |> List.singleton_inj.1).symm
  -- A path whose last name ends in one of the endings leads to another place.
  have hlook : ∀ {v : Volume} {base x e : String} {r : List String} {i : Item},
      e = valueEnding ∨ e = sidecarEnding ∨ e = unfinishedEnding →
      Spares (front ++ [name]) content v → v.find false (Path.join base (x ++ e)) = .ok (r, i) →
      i ≠ .directory → Spares (front ++ [name]) content (v.remove r) := by
    intro v base x e r i he hv hfind hi
    obtain ⟨before, hjoin⟩ := Path.exists_join_eq base (x ++ e)
    have hresolve := Volume.resolve_of_find hfind
    rw [hjoin, ← String.append_assoc] at hresolve
    obtain ⟨back, n, hr⟩ :=
      Volume.exists_of_resolve_ending (ending_spec he).1 (ending_spec he).2 hresolve
    exact hv.remove (Volume.not_directory_of_find hfind hi) (hother he hr)
  refine ⟨fun _ => trivial, fun _ _ => trivial, ?_, ?_,
    fun hv _ hw => Volume.makeDirsOf_induction (fun _ _ _ _ hu hmake => hu.makeDir hmake) hv hw,
    fun hv _ => Volume.dirsLeftOf_induction (fun _ _ _ _ hu hmake => hu.makeDir hmake) hv, ?_, ?_⟩
  · intro v d shard e r i hv _ _ he hfind hi
    exact hlook (he.imp_right .inl) hv hfind hi
  · intro v n names name' r i hv _ _ hswept hfind hi
    obtain ⟨x, e, he, rfl⟩ := exists_of_swept hswept
    exact hlook (he.imp_right .inr) hv hfind hi
  · intro v d e r i content' hv hd he hresolve hi
    obtain ⟨hfollow, hplace⟩ := resolve_unfinished dir hv.undrafted hd he
    rw [hfollow] at hresolve
    obtain ⟨⟨back, hr⟩, -⟩ := hplace r i hresolve
    rw [← String.append_assoc] at hr
    refine hv.put ?_ (hother (.inr (.inr rfl)) hr) (by simp)
    rw [← Volume.resolve_eq_ok hresolve]
    exact hi
  · intro v d e p i r j hv hd he hfind hi hresolve hj hne
    obtain ⟨⟨back, hp⟩, hlink⟩ :=
      (resolve_unfinished dir hv.undrafted hd he).2 p _ (Volume.resolve_of_find hfind)
    obtain ⟨back', hr⟩ := Volume.exists_of_resolve_name
      (hd.isPlain_append (endings_of_entry he).1) hresolve
    have hremove : Spares (front ++ [name]) content (v.remove p) := by
      rw [← String.append_assoc] at hp
      exact hv.remove (Volume.not_directory_of_find hfind hi) (hother (.inr (.inr rfl)) hp)
    refine hremove.put (fun hdirectory => ?_) (hother (he.imp_right .inl) hr) ?_
    · rw [Volume.resolve_eq_ok hresolve] at hj
      exact hj (Volume.item?_of_remove hdirectory)
    · rintro target rfl
      exact hlink target rfl

end Kind

/-! ## Files in other places -/

/-- A place in a volume to which no path of the disk layer leads on a directory: it is not in a
sub-directory, or it is there in another one than its digest says and no scan takes it away, since it is
not unfinished and a value has its sidecar with it. Beside the directory it must not be that a digest
leads up there. -/
structure Misplaced (v : Volume) (root q : List String) : Prop where
  beside : ∀ n, q = root.dropLast ++ [n] → shard? n ≠ some ".."
  strange : ∀ s n, q = root ++ [s, n] → shard? n ≠ some s ∧ withoutEnding? unfinishedEnding n = none
  accompanied : ∀ s d, q = root ++ [s, d ++ valueEnding] →
    withoutEnding? sidecarEnding (d ++ valueEnding) = none →
      (v.item? (root ++ [s, d ++ sidecarEnding])).isSome ∧ shard? (d ++ sidecarEnding) ≠ some s

/-- A directory of a disk layer in a volume without links, in which all is there that another volume has
in other places. -/
structure Keeping (before : Volume) (dir : String) (root : List String) (v : Volume) : Prop where
  plain : v.Unlinked
  leads : v.LeadsTo dir root
  kept : ∀ q i, Misplaced before root q → before.item? q = some i → v.item? q = some i

section Place

variable {before v : Volume} {dir d e n name : String} {root q r : List String} {i : Item}
  {j : Option Item} {names : List String}

theorem Keeping.remove (h : Keeping before dir root v) (hr : v.item? r ≠ some .directory)
    (hplace : ¬ Misplaced before root r) : Keeping before dir root (v.remove r) := by
  refine ⟨h.plain.remove hr, h.plain.leadsTo_remove h.leads hr, fun q i hq hi => ?_⟩
  refine ((h.plain.standing (h.kept q i hq hi)).remove hr ?_).item
  rintro rfl
  exact hplace hq

theorem Keeping.put {front : List String} (h : Keeping before dir root v)
    (hfront : v.item? front = some .directory) (hn : IsPlain n)
    (hr : v.item? (front ++ [n]) ≠ some .directory) (hi : ∀ target, i ≠ .link target)
    (hplace : ¬ Misplaced before root (front ++ [n])) :
    Keeping before dir root (v.put (front ++ [n]) i) := by
  refine ⟨h.plain.put hfront hn hr hi, h.plain.leadsTo_put h.leads hr, fun q j hq hj => ?_⟩
  refine ((h.plain.standing (h.kept q j hq hj)).put hr ?_ i).item
  rintro rfl
  exact hplace hq

/-- A digest leads up only by two points. -/
theorem cases_of_shard? {shard : String} (h : shard? d = some shard) :
    (∃ a b rest, d.toList = a :: b :: rest ∧ a.utf8Size = 1 ∧ b.utf8Size = 1 ∧
      shard = String.ofList [a, b]) ∨
    ∃ a rest, d.toList = a :: rest ∧ a.utf8Size = 2 ∧ shard = String.ofList [a] := by
  rw [shard?] at h
  split at h
  · next a b rest hlist =>
    split at h
    · next hone => exact .inl ⟨a, b, rest, hlist, hone.1, hone.2, (Option.some.inj h).symm⟩
    · split at h
      · next htwo => exact .inr ⟨a, b :: rest, hlist, htwo, (Option.some.inj h).symm⟩
      · cases h
  · next a hlist =>
    split at h
    · next htwo => exact .inr ⟨a, [], hlist, htwo, (Option.some.inj h).symm⟩
    · cases h
  · cases h

theorem shard?_append {shard : String} (h : shard? d = some shard) (e : String) :
    shard? (d ++ e) = some shard := by
  rcases cases_of_shard? h with ⟨a, b, rest, hlist, ha, hb, rfl⟩ | ⟨a, rest, hlist, ha, rfl⟩
  · have happend : (d ++ e).toList = a :: b :: (rest ++ e.toList) := by simp [hlist]
    simp [shard?, happend, ha, hb]
  · have happend : (d ++ e).toList = a :: (rest ++ e.toList) := by simp [hlist]
    rcases hrest : rest ++ e.toList with _ | ⟨b, rest'⟩ <;> simp [shard?, happend, hrest, ha]

theorem shard?_spec {shard : String} (h : shard? d = some shard) (hslash : '/' ∉ d.toList) :
    '/' ∉ shard.toList ∧ shard ≠ "" ∧ shard ≠ "." := by
  rcases cases_of_shard? h with ⟨a, b, rest, hlist, ha, hb, rfl⟩ | ⟨a, rest, hlist, ha, rfl⟩
  · refine ⟨fun hmem => hslash ?_, ?_, ?_⟩
    · rw [String.toList_ofList] at hmem
      rw [hlist]
      exact List.mem_append_left rest hmem
    · exact fun heq => absurd (congrArg (List.length ∘ String.toList) heq) (by simp)
    · exact fun heq => absurd (congrArg (List.length ∘ String.toList) heq) (by simp)
  · refine ⟨fun hmem => hslash ?_, ?_, ?_⟩
    · rw [String.toList_ofList] at hmem
      rw [hlist]
      exact List.mem_append_left rest hmem
    · exact fun heq => absurd (congrArg (List.length ∘ String.toList) heq) (by simp)
    · intro heq
      have hdot : a = '.' := by simpa using congrArg String.toList heq
      rw [hdot] at ha
      exact absurd ha (by decide)

theorem ne_of_ending {x : String} (he : e = valueEnding ∨ e = sidecarEnding ∨ e = unfinishedEnding) :
    x ++ e ≠ "" ∧ x ++ e ≠ "." ∧ x ++ e ≠ ".." := by
  have hlong := (ending_spec he).2
  have hne : ∀ m : String, m.toList.length ≤ 2 → x ++ e ≠ m := by
    rintro m hm rfl
    rw [String.toList_append, List.length_append] at hm
    omega
  exact ⟨hne "" (by decide), hne "." (by decide), hne ".." (by decide)⟩

/-- Where a path of the directory leads. -/
theorem Keeping.resolve_two {s : String} (h : Keeping before dir root v) (hs : '/' ∉ s.toList)
    (hs' : s ≠ "" ∧ s ≠ ".") (hn : '/' ∉ n.toList)
    (he : e = valueEnding ∨ e = sidecarEnding ∨ e = unfinishedEnding) (hname : n = d ++ e)
    (hr : v.resolve false (Path.join (Path.join dir s) n) = .ok (r, j)) :
    r = if s = ".." then root.dropLast ++ [n] else root ++ [s, n] :=
  h.leads.resolve_two hs hs' hn (hname ▸ ne_of_ending he) (h.plain.unlinked _) hr

/-- An entry has its place by its digest. -/
theorem Keeping.not_misplaced_entry {shard : String} (h : Keeping before dir root v)
    (hslash : '/' ∉ d.toList) (hshard : shard? d = some shard)
    (he : e = valueEnding ∨ e = sidecarEnding)
    (hr : v.resolve false (Path.join (Path.join dir shard) (d ++ e)) = .ok (r, j)) :
    ¬ Misplaced before root r := by
  obtain ⟨hs, hs'⟩ := shard?_spec hshard hslash
  have hname : '/' ∉ (d ++ e).toList := by
    rw [String.toList_append, List.mem_append, not_or]
    exact ⟨hslash, (ending_spec (he.imp_right .inl)).1⟩
  have hr := h.resolve_two hs hs' hname (he.imp_right .inl) rfl hr
  intro hplace
  split at hr
  · next hup => exact hplace.beside _ hr (hup ▸ shard?_append hshard e)
  · exact (hplace.strange _ _ hr).1 (shard?_append hshard e)

/-- The place of a file of a digest of a key, finished or not. -/
theorem Keeping.place_of_resolve (h : Keeping before dir root v) (hd : IsDigest d)
    (he : e ∈ endings) (hr : v.resolve false (filePath dir d e) = .ok (r, j)) :
    r = root ++ [shardOf d] ++ [d ++ e] ∧ ¬ Misplaced before root r := by
  have hs := hd.isPlain_shardOf
  have hn := hd.isPlain_append he
  have hplace := h.leads.resolve_two hs.unslashed ⟨hs.ne_empty, hs.ne_dot⟩ hn.unslashed
    ⟨hn.ne_empty, hn.ne_dot, hn.ne_up⟩ (h.plain.unlinked _) hr
  rw [if_neg hs.ne_up] at hplace
  refine ⟨by rw [hplace, List.append_assoc]; rfl, fun hmis => ?_⟩
  exact (hmis.strange _ _ hplace).1 (shard?_append hd.shard?_eq e)

theorem Misplaced.of_sidecar (before : Volume) (hd : shard? (d ++ sidecarEnding) ≠ some n) :
    Misplaced before root (root ++ [n, d ++ sidecarEnding]) := by
  have hlast : ∀ {s m : String}, root ++ [n, d ++ sidecarEnding] = root ++ [s, m] →
      n = s ∧ d ++ sidecarEnding = m := fun heq => by simpa using heq
  refine ⟨fun m heq => ?_, fun s m heq => ?_, fun s d' heq hvalue => ?_⟩
  · have hlength := congrArg List.length heq
    simp only [List.length_append, List.length_dropLast, List.length_cons, List.length_nil] at hlength
    omega
  · obtain ⟨rfl, rfl⟩ := hlast heq
    exact ⟨hd, withoutEnding?_unfinished (.inr rfl)⟩
  · rw [← (hlast heq).2, withoutEnding?_append] at hvalue
    cases hvalue

/-- What is swept away is in a sub-directory and has no sidecar with it. -/
theorem Keeping.not_misplaced_swept (h : Keeping before dir root v)
    (hlisted : Listed (Keeping before dir root) dir n names) (hname : name ∈ names)
    (hswept : Swept names name)
    (hr : v.resolve false (Path.join (Path.join dir n) name) = .ok (r, j)) :
    ¬ Misplaced before root r := by
  obtain ⟨⟨u, all, hu, hall, hn⟩, u', hu', hnames⟩ := hlisted
  rw [hu.leads.readDir] at hall
  cases hall
  have hn := hu.plain.name _ _ (Volume.mem_children.1 hn)
  obtain rfl := hu'.plain.readDir_join hu'.leads hn hnames
  have hslash := (hu'.plain.name _ _ (Volume.mem_children.1 hname)).unslashed
  obtain ⟨d, e, he, hending⟩ := exists_of_swept hswept
  have hr := h.resolve_two hn.unslashed ⟨hn.ne_empty, hn.ne_dot⟩ hslash (he.imp_right .inr)
    hending hr
  rw [if_neg hn.ne_up] at hr
  intro hplace
  rcases hswept with hunfinished | ⟨-, hsidecar, d, hvalue, halone⟩
  · rw [(hplace.strange n name hr).2] at hunfinished
    cases hunfinished
  · obtain rfl := withoutEnding?_eq_some_iff.1 hvalue
    obtain ⟨hbeside, hstrange⟩ := hplace.accompanied n d hr hsidecar
    have hsidecarPlace : Misplaced before root (root ++ [n, d ++ sidecarEnding]) :=
      .of_sidecar before hstrange
    obtain ⟨i, hi⟩ := Option.isSome_iff_exists.1 hbeside
    have hkept := hu'.kept _ i hsidecarPlace hi
    refine halone (Volume.mem_children.2 ?_)
    rw [List.append_assoc, List.singleton_append, hkept]
    rfl

/-- No file in another place is at a place that is changed. -/
theorem frame_keeping : Frame dir (Keeping before dir root) fun d => '/' ∉ d.toList := by
  have hgrown : ∀ {v w : Volume}, Keeping before dir root v → v.Within w → w.Unlinked →
      Keeping before dir root w := fun hv hwithin hw =>
    ⟨hw, hv.leads.within hwithin, fun q i hq hi => hwithin.item _ _ (hv.kept q i hq hi)⟩
  refine ⟨IsDigest.slash_not_mem, ?_, ?_, ?_,
    fun hv _ hw => hgrown hv (Volume.within_makeDirs hw) (hv.plain.makeDirs hw),
    fun hv _ => hgrown hv (Volume.within_dirsLeft ..) (hv.plain.dirsLeft _), ?_, ?_⟩
  · rintro n names d ⟨⟨u, all, hu, hall, hn⟩, u', hu', hnames⟩ hmem hslash
    rw [hu.leads.readDir] at hall
    cases hall
    have hn := hu.plain.name _ _ (Volume.mem_children.1 hn)
    obtain rfl := hu'.plain.readDir_join hu'.leads hn hnames
    refine (hu'.plain.name _ _ (Volume.mem_children.1 hmem)).unslashed ?_
    rw [String.toList_append]
    exact List.mem_append_left _ hslash
  · intro v d shard e r i hv hslash hshard he hfind hi
    exact hv.remove (Volume.not_directory_of_find hfind hi)
      (hv.not_misplaced_entry hslash hshard he (Volume.resolve_of_find hfind))
  · intro v n names name r i hv hlisted hname hswept hfind hi
    exact hv.remove (Volume.not_directory_of_find hfind hi)
      (hv.not_misplaced_swept hlisted hname hswept (Volume.resolve_of_find hfind))
  · intro v d e r i content hv hd he hresolve hi
    have hmem := endings_of_entry he
    rw [hv.plain.resolve_true, Shelf.filePath_append dir hd hmem.1 hmem.2] at hresolve
    obtain ⟨rfl, hplace⟩ := hv.place_of_resolve hd hmem.2 hresolve
    obtain ⟨hfront, hn⟩ := hv.plain.of_resolve hresolve
    exact hv.put hfront hn (Volume.resolve_eq_ok hresolve ▸ hi) (by simp) hplace
  · intro v d e p i r j hv hd he hfind hi hresolve hj hne
    have hmem := endings_of_entry he
    have hsource := Volume.resolve_of_find hfind
    rw [Shelf.filePath_append dir hd hmem.1 hmem.2] at hsource
    have hfile := Volume.not_directory_of_find hfind hi
    have hremove := hv.remove hfile (hv.place_of_resolve hd hmem.2 hsource).2
    obtain ⟨rfl, hplace⟩ := hv.place_of_resolve hd hmem.1 hresolve
    obtain ⟨hfront, hn⟩ := hv.plain.of_resolve hresolve
    refine hremove.put (hv.plain.directory_remove hfile hfront) hn (fun hdirectory => ?_) ?_ hplace
    · rw [Volume.resolve_eq_ok hresolve] at hj
      exact hj (Volume.item?_of_remove hdirectory)
    · rintro target rfl
      exact hv.plain.unlinked p target (Volume.item?_of_find hfind)

end Place

/-! ## Any file -/

/-- A file that is not the disk layer's: of another kind where no link leads a file that is being
written astray, or in another place. -/
inductive Foreign (v : Volume) (dir : String) : List String → Prop
  | kind {front : List String} {name : String} : Undrafted v → Alien name →
      Foreign v dir (front ++ [name])
  | place {root q : List String} : v.Unlinked → v.LeadsTo dir root → Misplaced v root q →
      Foreign v dir q

/-- A place that has the name of a file of an entry in the directory of its digest. -/
def IsEntryPlace (v : Volume) (dir : String) (q : List String) : Prop :=
  ∃ root d e, v.LeadsTo dir root ∧ IsDigest d ∧ e ∈ endings ∧ q = root ++ [shardOf d, d ++ e]

namespace DiskCache

/-- **A file that is foreign by its kind or by its place is left alone** by every run in which the
directory is not cleared, whatever the directory holds and whatever faults are met. -/
theorem runs_spare_foreign {settings : DiskSettings} {drive : Drive} {s : DiskState}
    {calls : List (DiskCall × Except CacheError DiskAnswer)} {q : List String} {content : ByteArray}
    (htree : drive.volume.IsTree) (hfile : drive.volume.item? q = some (.file content))
    (hforeign : Foreign drive.volume settings.directory q)
    (hruns : Runs ⟨DiskCache.new settings, drive⟩ calls s) (hcalls : ∀ c ∈ calls, c.1 ≠ .clear) :
    s.drive.volume.item? q = some (.file content) := by
  have hstart : ∀ {J : Volume → Prop} {digests : String → Prop}, J drive.volume →
      Framed settings.directory J digests ⟨DiskCache.new settings, drive⟩ :=
    fun hv => ⟨rfl, hv, fun hseeded => nomatch hseeded⟩
  cases hforeign with
  | kind hdrafts halien =>
    have hspares : Spares _ content drive.volume := ⟨htree.standing hfile, hdrafts⟩
    exact ((frame_spares halien).keeps_runs (hstart hspares) hruns hcalls).volume.standing.item
  | place hplain hleads hplace =>
    have hkeeping : Keeping drive.volume settings.directory _ drive.volume :=
      ⟨hplain, hleads, fun _ _ _ hi => hi⟩
    exact (frame_keeping.keeps_runs (hstart hkeeping) hruns hcalls).volume.kept q _ hplace hfile

section Alone

variable {s : DiskState} {n d : String} {w : Volume} (hfaults : s.drive.faults = [])
  (hd : withoutEnding? sidecarEnding (d ++ valueEnding) = none)

include hfaults hd

/-- A scan takes a file away that ends like a value and has no sidecar with it. -/
theorem run_scanName_alone {path : String} {all : List String} (halone : d ++ sidecarEnding ∉ all)
    (hremove : s.drive.volume.removeFile (Path.join path (d ++ valueEnding)) = .ok w) :
    (scanName path all (d ++ valueEnding)).run.run s = (.ok [], { s with drive := ⟨w, []⟩ }) := by
  have hremoved : (removeIfPresent (Path.join path (d ++ valueEnding))).run.run s =
      (.ok (), { s with drive := ⟨w, []⟩ }) := by
    rw [removeIfPresent, FileM.removeFile, run_bind_ok (DiskM.run_files _ s), FileM.run_writing,
      hfaults]
    simp only [List.head?_nil, Option.join_none, hremove, List.tail_nil]
    rfl
  rw [scanName_value _ _ hd, if_neg halone]
  exact run_bind_ok hremoved

theorem run_stats_alone (hunseeded : s.cache.seeded = false)
    (hlist : s.drive.volume.readDir s.cache.directory = .ok [n])
    (hkind : s.drive.volume.linkMetadata (Path.join s.cache.directory n) = .ok .directory)
    (hnames : s.drive.volume.readDir (Path.join s.cache.directory n) = .ok [d ++ valueEnding])
    (hremove : s.drive.volume.removeFile
      (Path.join (Path.join s.cache.directory n) (d ++ valueEnding)) = .ok w) :
    ∃ answer s', DiskCall.stats.perform.run.run s = (.ok answer, s') ∧ s'.drive.volume = w := by
  have halone : d ++ sidecarEnding ∉ [d ++ valueEnding] := by
    rw [List.mem_singleton]
    intro heq
    rw [withoutEnding?_eq_some_iff.2 heq.symm] at hd
    cases hd
  have hshard : (scanShard (Path.join s.cache.directory n)).run.run s =
      (.ok [], { s with drive := ⟨w, []⟩ }) := by
    rw [scanShard, run_bind_ok (DiskM.run_file_reading hfaults _ hkind)]
    simp only [Item.isDirectory, if_true]
    refine (run_bind_ok (DiskM.run_file_reading hfaults _ hnames)).trans ?_
    exact run_bind_ok (run_scanName_alone hfaults hd halone hremove)
  have hscan : scan.run.run s = (.ok [], { s with drive := ⟨w, []⟩ }) := by
    rw [scan, run_bind_ok (run_get s)]
    refine (run_bind_ok (DiskM.run_files_reading hfaults _)).trans ?_
    rw [hlist]
    exact run_bind_ok hshard
  have hindex : ∃ s', ensureIndex.run.run s = (.ok (), s') ∧ s'.drive.volume = w := by
    rw [ensureIndex, run_bind_ok (run_get s), hunseeded]
    exact ⟨_, run_bind_ok hscan, rfl⟩
  obtain ⟨s', hs', hw⟩ := hindex
  exact ⟨_, s', run_bind_ok (run_bind_ok hs'), hw⟩

end Alone

/-- A directory with a file `notes.json` in a sub-directory, and one of this name beside it. -/
def notesVolume : Volume :=
  ⟨[(["cache"], .directory), (["cache", "docs"], .directory),
    (["cache", "docs", "notes.json"], .file "hello".toUTF8),
    (["notes.json"], .file "hello".toUTF8)], []⟩

theorem isPlain_docs : IsPlain "docs" := by decide

theorem isPlain_notes : IsPlain "notes.json" := by decide

theorem unlinked_notesVolume : notesVolume.Unlinked := by
  refine .of_entries rfl fun e he => ?_
  simp only [notesVolume, List.mem_cons, List.not_mem_nil, or_false] at he
  rcases he with rfl | rfl | rfl | rfl
  · exact ⟨[], "cache", rfl, rfl, isPlain_cache, by simp⟩
  · exact ⟨["cache"], "docs", rfl, rfl, isPlain_docs, by simp⟩
  · exact ⟨["cache", "docs"], "notes.json", rfl, rfl, isPlain_notes, by simp⟩
  · exact ⟨[], "notes.json", rfl, rfl, isPlain_notes, by simp⟩

theorem leadsTo_notesVolume : notesVolume.LeadsTo "cache" ["cache"] :=
  Volume.leadsTo_name rfl isPlain_cache rfl

theorem run_stats_notes : ∃ answer s', DiskCall.stats.perform.run.run
    (DiskState.facing ⟨DiskCache.new ⟨"cache", 10⟩, ⟨notesVolume, []⟩⟩ []) = (.ok answer, s') ∧
      s'.drive.volume.item? ["cache", "docs", "notes.json"] = none := by
  have hsub : notesVolume.LeadsTo (Path.join "cache" "docs") ["cache", "docs"] :=
    leadsTo_notesVolume.join isPlain_docs (by decide) rfl
  obtain ⟨answer, s', hrun, hw⟩ := run_stats_alone (d := "notes")
    (s := DiskState.facing ⟨DiskCache.new ⟨"cache", 10⟩, ⟨notesVolume, []⟩⟩ []) rfl (by decide) rfl
    leadsTo_notesVolume.readDir
    (leadsTo_notesVolume.linkMetadata_join isPlain_docs (by decide) rfl (by simp)) hsub.readDir
    (hsub.removeFile_join isPlain_notes (by decide) rfl)
  refine ⟨answer, s', hrun, ?_⟩
  rw [hw, Volume.item?_remove]
  rfl

/-- What is beside the directory is left alone. -/
theorem runs_spare_foreign_notes : ∃ answer s',
    Runs ⟨DiskCache.new ⟨"cache", 10⟩, ⟨notesVolume, []⟩⟩ [(.stats, .ok answer)] s' ∧
      s'.drive.volume.item? ["notes.json"] = some (.file "hello".toUTF8) := by
  obtain ⟨answer, s', hrun, -⟩ := run_stats_notes
  have hplace : Misplaced notesVolume ["cache"] ["notes.json"] := by
    refine ⟨fun n heq => ?_, fun s n heq => ?_, fun s d heq => ?_⟩
    · rw [← show "notes.json" = n by simpa using heq]
      decide
    · simp at heq
    · simp at heq
  refine ⟨answer, s', Runs.start.call hrun, ?_⟩
  refine runs_spare_foreign unlinked_notesVolume.toIsTree rfl
    (.place unlinked_notesVolume leadsTo_notesVolume hplace) (Runs.start.call hrun) ?_
  intro c hc
  rw [List.mem_singleton.1 hc]
  simp

/-- It is not so that every file is left alone whose place is not that of an entry. -/
theorem stats_takes_notes : ¬ ∀ (settings : DiskSettings) (drive : Drive) (s : DiskState)
    (calls : List (DiskCall × Except CacheError DiskAnswer)) (q : List String) (content : ByteArray),
    Runs ⟨DiskCache.new settings, drive⟩ calls s → (∀ c ∈ calls, c.1 ≠ .clear) →
    drive.volume.item? q = some (.file content) → ¬ IsEntryPlace drive.volume settings.directory q →
    s.drive.volume.item? q = some (.file content) := by
  intro hclaim
  obtain ⟨answer, s', hrun, hgone⟩ := run_stats_notes
  have hplace : ¬ IsEntryPlace notesVolume "cache" ["cache", "docs", "notes.json"] := by
    rintro ⟨root, d, e, hleads, hd, -, heq⟩
    obtain rfl : root = ["cache"] := hleads.unique leadsTo_notesVolume
    have hshard : "docs" = shardOf d := by
      simp only [List.cons_append, List.nil_append, List.cons.injEq] at heq
      exact heq.2.1
    have hlength := hd.utf8ByteSize_shardOf
    rw [← hshard] at hlength
    exact absurd hlength (by decide)
  have hkept := hclaim ⟨"cache", 10⟩ ⟨notesVolume, []⟩ s' _ _ _ (Runs.start.call hrun)
    (fun c hc => by rw [List.mem_singleton.1 hc]; simp) rfl hplace
  rw [hgone] at hkept
  cases hkept

end DiskCache

end CodeGraph.Cache
