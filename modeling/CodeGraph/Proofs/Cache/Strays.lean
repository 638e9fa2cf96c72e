import CodeGraph.Proofs.Cache.Lookups

/-!
# Files that belong to no entry

The sub-directories of a cache's directory may hold any mixture of files of entries, with any bytes in
them (`Shelved`): what was interrupted, what another version has left, values and sidecars that have lost
each other. A file is a `Stray` unless it is a sidecar of the current version or the value of one.

Whatever strays are taken away, the directory is still one of files of entries, and what belongs to an
entry is where it was (`Tidied`).
-/

namespace CodeGraph.Cache

open CodeGraph.Path (IsPlain)
open DiskCache (valueEnding sidecarEnding)

/-! ## Directories of files of entries -/

/-- The directory of a cache. What its sub-directories hold are files of entries, each in the
sub-directory of its digest. Whatever else it holds is no directory. -/
structure Shelved (v : Volume) (dir : String) (base : List String) : Prop where
  tree : v.IsTree
  leads : v.LeadsTo dir base
  /-- Names can be joined to paths, and the paths are none too long. -/
  name : ∀ n, (v.item? (base ++ [n])).isSome →
    IsPlain n ∧ (Path.join dir n).utf8ByteSize ≤ Volume.longestPath
  file : ∀ n m i, v.item? (base ++ [n, m]) = some i →
    (∃ d e, IsHex d ∧ e ∈ endings ∧ n = shardOf d ∧ m = d ++ e) ∧ (∃ b, i = .file b) ∧
      (Path.join (Path.join dir n) m).utf8ByteSize ≤ Volume.longestPath

/-- The place of a file of an entry in a directory. -/
def placeIn (base : List String) (d e : String) : List String :=
  base ++ [shardOf d, d ++ e]

/-- The content of a file of an entry in a directory. -/
def contentIn (v : Volume) (base : List String) (d e : String) : Option ByteArray :=
  match v.item? (placeIn base d e) with
  | some (.file b) => some b
  | _ => none

/-- The sidecar of the current version that bytes are. -/
def current? (content : Option ByteArray) : Option Sidecar :=
  (content.bind Sidecar.decode?).filter fun m => m.version == Sidecar.currentVersion

/-- What the sidecar of a digest records. -/
def recordIn (v : Volume) (base : List String) (d : String) : Option IndexedEntry :=
  (current? (contentIn v base d sidecarEnding)).map Sidecar.indexed

/-- Whether a file belongs to an entry: it is a sidecar of the current version or has one. -/
def Belongs (v : Volume) (base : List String) (d e : String) : Prop :=
  recordIn v base d ≠ none ∧ (e = valueEnding ∨ e = sidecarEnding)

/-- The place of a file that belongs to no entry. -/
def Stray (v : Volume) (base q : List String) : Prop :=
  ∃ d e, IsHex d ∧ e ∈ endings ∧ q = placeIn base d e ∧ ¬ Belongs v base d e

variable {v w : Volume} {dir : String} {base q : List String} {n d d' e e' : String}
  {gone gone' : List String → Prop} {content : Option ByteArray}

theorem current?_eq_some_iff {m : Sidecar} : current? content = some m ↔ Recorded content m := by
  simp only [current?, Recorded, Option.filter_eq_some_iff, Option.bind_eq_some_iff, beq_iff_eq]
  constructor
  · rintro ⟨⟨b, hb, hdecode⟩, hversion⟩
    exact ⟨b, hb, hdecode, hversion⟩
  · rintro ⟨b, hb, hdecode, hversion⟩
    exact ⟨⟨b, hb, hdecode⟩, hversion⟩

theorem recordIn_eq_some_iff {i : IndexedEntry} :
    recordIn v base d = some i ↔
      ∃ m, Recorded (contentIn v base d sidecarEnding) m ∧ m.indexed = i := by
  simp only [recordIn, Option.map_eq_some_iff, current?_eq_some_iff]

theorem contentIn_eq_some_iff {b : ByteArray} :
    contentIn v base d e = some b ↔ v.item? (placeIn base d e) = some (.file b) := by
  rw [contentIn]
  rcases v.item? (placeIn base d e) with _ | (b' | _ | t)
  · simp
  · simp
  · simp
  · simp

theorem recordIn_of_content {b : ByteArray} (hcontent : contentIn v base d sidecarEnding = some b) :
    recordIn v base d = ((Sidecar.decode? b).filter fun m =>
      m.version == Sidecar.currentVersion).map Sidecar.indexed := by
  rw [recordIn, current?, hcontent, Option.bind_some]

theorem placeIn_eq (base : List String) (d e : String) :
    placeIn base d e = base ++ [shardOf d] ++ [d ++ e] :=
  List.append_cons ..

theorem placeIn_inj (hd : IsHex d) (hd' : IsHex d') (h : placeIn base d e = placeIn base d' e') :
    d = d' ∧ e = e' := by
  have hnames := List.append_cancel_left h
  simp only [List.cons.injEq, and_true] at hnames
  exact hd.append_inj hd' hnames.2

theorem Stray.not_belongs (h : Stray v base (placeIn base d e)) (hd : IsHex d) :
    ¬ Belongs v base d e := by
  obtain ⟨d', e', hd', -, hplace, hstray⟩ := h
  obtain ⟨rfl, rfl⟩ := placeIn_inj hd hd' hplace
  exact hstray

theorem isSome_of_contentIn (hcontent : contentIn v base d e ≠ none) :
    (v.item? (placeIn base d e)).isSome := by
  obtain ⟨b, hb⟩ := Option.ne_none_iff_exists'.1 hcontent
  rw [contentIn_eq_some_iff.1 hb]
  rfl

namespace Shelved

variable (h : Shelved v dir base)

include h

theorem isHex_of_sidecar (hitem : (v.item? (placeIn base d sidecarEnding)).isSome) : IsHex d := by
  obtain ⟨i, hi⟩ := Option.isSome_iff_exists.1 hitem
  obtain ⟨⟨d', e, hd', he, -, hname⟩, -⟩ := h.file _ _ _ hi
  rwa [← hd'.eq_of_append_sidecarEnding he hname.symm]

/-- What is recorded is recorded in a file. -/
theorem sidecar_of_recordIn (hrecord : recordIn v base d ≠ none) :
    IsHex d ∧ (v.item? (placeIn base d sidecarEnding)).isSome := by
  obtain ⟨i, hi⟩ := Option.ne_none_iff_exists'.1 hrecord
  obtain ⟨m, ⟨b, hb, -⟩, -⟩ := recordIn_eq_some_iff.1 hi
  have hsome := isSome_of_contentIn (by rw [hb]; exact Option.some_ne_none b)
  exact ⟨h.isHex_of_sidecar hsome, hsome⟩

theorem directory_of_item? {m : String} (hitem : (v.item? (base ++ [n, m])).isSome) :
    v.item? (base ++ [n]) = some .directory := by
  rw [List.append_cons] at hitem
  exact h.tree.parent _ _ hitem

theorem contentIn_ne_none (hitem : (v.item? (placeIn base d e)).isSome) :
    contentIn v base d e ≠ none := by
  obtain ⟨i, hi⟩ := Option.isSome_iff_exists.1 hitem
  obtain ⟨-, ⟨b, rfl⟩, -⟩ := h.file _ _ _ hi
  rw [contentIn_eq_some_iff.2 hi]
  exact Option.some_ne_none b

/-- Nothing but files stray. -/
theorem file_of_stray (hstray : Stray v base q) {i : Item} (hi : v.item? q = some i) :
    ∃ b, i = .file b := by
  obtain ⟨d, e, -, -, rfl, -⟩ := hstray
  exact (h.file _ _ _ hi).2.1

end Shelved

/-! ## Without some of the strays -/

/-- A volume from which strays have been taken away, those at the given places at least. -/
structure Tidied (v : Volume) (base : List String) (gone : List String → Prop) (w : Volume) :
    Prop where
  current : w.current = v.current
  item : ∀ q, w.item? q = v.item? q ∨ w.item? q = none ∧ Stray v base q
  /-- A sidecar goes after its value. -/
  value : ∀ d, contentIn v base d sidecarEnding ≠ none → contentIn w base d sidecarEnding = none →
    contentIn w base d valueEnding = none
  gone : ∀ q, gone q → w.item? q = none

namespace Tidied

theorem start (v : Volume) (base : List String) : Tidied v base (fun q => v.item? q = none) v :=
  ⟨rfl, fun _ => .inl rfl, fun _ hsome hnone => absurd hnone hsome, fun _ h => h⟩

theorem more (ht : Tidied v base gone w) (hgone : ∀ q, gone' q → gone q ∨ w.item? q = none) :
    Tidied v base gone' w :=
  ⟨ht.current, ht.item, ht.value, fun q hq => (hgone q hq).elim (ht.gone q) id⟩

variable (ht : Tidied v base gone w)

include ht

theorem isSome_of_isSome (hitem : (w.item? q).isSome) : w.item? q = v.item? q :=
  (ht.item q).resolve_right fun hnone => by simp [hnone.1] at hitem

theorem item_of_belongs (hd : IsHex d) (hbelongs : Belongs v base d e) :
    w.item? (placeIn base d e) = v.item? (placeIn base d e) :=
  (ht.item _).resolve_right fun hstray => hstray.2.not_belongs hd hbelongs

variable (h : Shelved v dir base)

include h

omit h in
/-- What the directory itself holds stays. -/
theorem item_at_top {i : Item} (hi : v.item? (base ++ [n]) = some i) :
    w.item? (base ++ [n]) = some i := by
  rcases ht.item (base ++ [n]) with hsame | ⟨-, d, e, -, -, hplace, -⟩
  · rw [hsame, hi]
  · have hlength := congrArg List.length hplace
    simp [placeIn] at hlength

/-- What is no file stays. -/
theorem item_of_not_file {i : Item} (hi : v.item? q = some i) (hfile : ∀ b, i ≠ .file b) :
    w.item? q = some i := by
  rcases ht.item q with hsame | ⟨-, hstray⟩
  · rw [hsame, hi]
  · obtain ⟨b, rfl⟩ := h.file_of_stray hstray hi
    exact absurd rfl (hfile b)

theorem tree : w.IsTree := by
  refine ⟨?_, fun p n hitem => ?_⟩
  · rw [ht.current]
    exact ht.item_of_not_file h h.tree.current (by simp)
  · rw [ht.isSome_of_isSome hitem] at hitem
    exact ht.item_of_not_file h (h.tree.parent p n hitem) (by simp)

theorem leads : w.LeadsTo dir base :=
  h.leads.kept ht.current fun _ _ hi hfile => ht.item_of_not_file h hi hfile

theorem leads_shard (hshard : v.item? (base ++ [n]) = some .directory) :
    w.LeadsTo (Path.join dir n) (base ++ [n]) := by
  obtain ⟨hplain, hshort⟩ := h.name n (by rw [hshard]; rfl)
  exact (ht.leads h).join hplain hshort (ht.item_of_not_file h hshard (by simp))

theorem contentIn_eq_none_iff : contentIn w base d e = none ↔ w.item? (placeIn base d e) = none := by
  refine ⟨fun hcontent => ?_, fun hnone => by rw [contentIn, hnone]⟩
  rcases hitem : w.item? (placeIn base d e) with _ | i
  · rfl
  · have hsame := ht.isSome_of_isSome (q := placeIn base d e) (by rw [hitem]; rfl)
    rw [hitem] at hsame
    obtain ⟨-, ⟨b, rfl⟩, -⟩ := h.file _ _ _ hsame.symm
    rw [contentIn_eq_some_iff.2 hitem] at hcontent
    cases hcontent

/-- Where a sidecar is missing that was there, nothing of its entry is left. -/
theorem of_missing (hd : IsHex d) (hthere : (v.item? (placeIn base d sidecarEnding)).isSome)
    (hmissing : contentIn w base d sidecarEnding = none) :
    recordIn v base d = none ∧ w.item? (placeIn base d sidecarEnding) = none ∧
      w.item? (placeIn base d valueEnding) = none := by
  have hitem := (ht.contentIn_eq_none_iff h).1 hmissing
  have hvalue := ht.value d (h.contentIn_ne_none hthere) hmissing
  refine ⟨?_, hitem, (ht.contentIn_eq_none_iff h).1 hvalue⟩
  by_contra hrecord
  rw [ht.item_of_belongs hd ⟨hrecord, .inr rfl⟩] at hitem
  rw [hitem] at hthere
  cases hthere

section File

variable (hd : IsHex d) (he : e ∈ endings) (hshard : v.item? (base ++ [shardOf d]) = some .directory)
  (hshort : (filePath dir d e).utf8ByteSize ≤ Volume.longestPath)

include hd he hshard hshort

theorem find_filePath {b : ByteArray} (hcontent : contentIn w base d e = some b) :
    w.find false (filePath dir d e) = .ok (placeIn base d e, .file b) := by
  rw [contentIn_eq_some_iff, placeIn_eq] at hcontent
  rw [placeIn_eq]
  exact (ht.leads_shard h hshard).find_join (hd.isPlain_append he) hshort hcontent (by simp) false

theorem fileAt_filePath : w.FileAt (filePath dir d e) (contentIn w base d e) := by
  rcases hcontent : contentIn w base d e with _ | b
  · rw [ht.contentIn_eq_none_iff h, placeIn_eq] at hcontent
    have hfind := (ht.leads_shard h hshard).find_join_missing (hd.isPlain_append he) hshort hcontent
      false
    exact .of_missing (Volume.missing_of_find hfind)
  · exact .of_find (ht.find_filePath h hd he hshard hshort hcontent)

/-- A stray is taken away, its value before it if it is a sidecar. -/
theorem dropFile (hstray : ¬ Belongs v base d e)
    (hvalue : e = sidecarEnding → gone (placeIn base d valueEnding)) :
    Tidied v base (fun q => gone q ∨ q = placeIn base d e) (w.dropFile (filePath dir d e)) := by
  have hfile := ht.fileAt_filePath h hd he hshard hshort
  rcases hcontent : contentIn w base d e with _ | b
  · rw [hcontent] at hfile
    rw [hfile.dropFile_of_none]
    refine ht.more fun q hq => hq.imp_right ?_
    rintro rfl
    exact (ht.contentIn_eq_none_iff h).1 hcontent
  have hitem := contentIn_eq_some_iff.1 hcontent
  have hkept : ∀ q, q ≠ placeIn base d e → (w.remove (placeIn base d e)).item? q = w.item? q :=
    fun q hq => (ht.tree h).item?_remove_file hitem hq
  have hgone : (w.remove (placeIn base d e)).item? (placeIn base d e) = none := by
    rw [Volume.item?_remove, if_pos ⟨by simp [placeIn], by simp⟩]
  have hnone : ∀ q, w.item? q = none → (w.remove (placeIn base d e)).item? q = none := by
    intro q hq
    by_cases hsame : q = placeIn base d e
    · rw [hsame, hgone]
    · rw [hkept q hsame, hq]
  rw [Volume.dropFile, ht.find_filePath h hd he hshard hshort hcontent]
  refine ⟨ht.current, fun q => ?_, fun d' hsome hsidecar => ?_, ?_⟩
  · by_cases hq : q = placeIn base d e
    · exact .inr ⟨by rw [hq, hgone], d, e, hd, he, hq, hstray⟩
    · rw [hkept q hq]
      exact ht.item q
  · have hvalue' : w.item? (placeIn base d' valueEnding) = none := by
      by_cases hsame : placeIn base d' sidecarEnding = placeIn base d e
      · have hd' : IsHex d' := h.isHex_of_sidecar (isSome_of_contentIn hsome)
        obtain ⟨rfl, hending⟩ := placeIn_inj hd' hd hsame
        exact ht.gone _ (hvalue hending.symm)
      · rw [contentIn, hkept _ hsame] at hsidecar
        exact (ht.contentIn_eq_none_iff h).1 (ht.value d' hsome hsidecar)
    rw [contentIn, hnone _ hvalue']
  · rintro q (hq | rfl)
    · exact hnone q (ht.gone q hq)
    · exact hgone

end File

end Tidied

end CodeGraph.Cache
