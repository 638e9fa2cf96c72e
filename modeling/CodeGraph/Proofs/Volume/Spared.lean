import CodeGraph.Proofs.Volume.Straight

/-!
# What changes leave alone

From one volume to another some places stay as they are, and at some others no file is changed,
though directories may be made there (`LeftAlone`). A change at one place spares what it is not at
(`LeftAlone.put`, `LeftAlone.remove`), and making directories spares the places that are not on the way
(`LeftAlone.makeDirs`). What a path reads that goes straight on to a spared place it reads still
(`LeftAlone.toOption_readFile`).
-/

namespace CodeGraph.Volume

open CodeGraph.Path (IsPlain)

/-- From one volume to another no place of the first kind has changed and no file of the second. No
directory is gone, no link is new, and directories list their names as often as before. -/
structure LeftAlone (S T : List String → Prop) (v w : Volume) : Prop where
  current : w.current = v.current
  unlinked : w.Unlinked
  directory : ∀ q, v.item? q = some .directory → w.item? q = some .directory
  same : ∀ q, S q → w.item? q = v.item? q
  content : ∀ q, T q → w.contentAt? q = v.contentAt? q
  listed : ∀ q, (v.children q).Nodup → (w.children q).Nodup

/-- No place at a directory or below is of a kind, and above it only such as are directories. -/
structure Clears (S : List String → Prop) (v : Volume) (q : List String) : Prop where
  below : ∀ r, ¬ S (q ++ r)
  above : ∀ r, r <+: q → S r → v.item? r = some .directory

namespace LeftAlone

variable {S T S' T' : List String → Prop} {u v w : Volume} {p n : String}
  {q r front : List String} {i : Item}

theorem refl (hv : v.Unlinked) : LeftAlone S T v v :=
  ⟨rfl, hv, fun _ h => h, fun _ _ => rfl, fun _ _ => rfl, fun _ h => h⟩

theorem trans (h : LeftAlone S T u v) (h' : LeftAlone S T v w) : LeftAlone S T u w :=
  ⟨h'.current.trans h.current, h'.unlinked, fun q hq => h'.directory q (h.directory q hq),
    fun q hq => (h'.same q hq).trans (h.same q hq),
    fun q hq => (h'.content q hq).trans (h.content q hq), fun q hq => h'.listed q (h.listed q hq)⟩

/-- Less is asked of fewer places. -/
theorem mono (h : LeftAlone S T v w) (hS : ∀ q, S' q → S q) (hT : ∀ q, T' q → T q) :
    LeftAlone S' T' v w :=
  ⟨h.current, h.unlinked, h.directory, fun q hq => h.same q (hS q hq),
    fun q hq => h.content q (hT q hq), h.listed⟩

/-- Without links nothing but a file can have gone. -/
theorem kept (h : LeftAlone S T v w) (hv : v.Unlinked) :
    ∀ s i, v.item? s = some i → (∀ content, i ≠ .file content) → w.item? s = some i := by
  rintro s (content | _ | target) hi hfile
  · exact absurd rfl (hfile content)
  · exact h.directory s hi
  · exact absurd hi (hv.unlinked s target)

/-- A path goes straight on as before. -/
theorem straight (h : LeftAlone S T v w) (hv : v.Unlinked) (hp : v.Straight p q) :
    w.Straight p q :=
  hp.kept h.current (h.kept hv)

theorem leadsTo (h : LeftAlone S T v w) (hv : v.Unlinked) (hp : v.LeadsTo p q) : w.LeadsTo p q :=
  hp.kept h.current (h.kept hv)

/-- What is read at a place that is spared is read still. -/
theorem toOption_readFile (h : LeftAlone S T v w) (hv : v.Unlinked) (hp : v.Straight p q)
    (hq : S q ∨ T q) : (w.readFile p).toOption = (v.readFile p).toOption := by
  have hcontent : w.contentAt? q = v.contentAt? q := by
    rcases hq with hq | hq
    · rw [contentAt?, contentAt?, h.same q hq]
    · exact h.content q hq
  rw [(h.straight hv hp).toOption_readFile h.unlinked, hp.toOption_readFile hv, hcontent]

/-- Where nothing has changed the same is found. -/
theorem readText_eq (h : LeftAlone S T v w) (hv : v.Unlinked) (hp : v.Straight p q) (hq : S q)
    (hmetadata : (v.metadata p).isOk = true) : w.readText p = v.readText p := by
  obtain ⟨hlen, hitem⟩ := (hp.isOk_metadata hv).1 hmetadata
  obtain ⟨i, hi⟩ := Option.isSome_iff_exists.1 hitem
  have hfind := hp.find hv hlen hi true
  have hfind' := (h.straight hv hp).find h.unlinked hlen ((h.same q hq).trans hi) true
  rw [readText, readText, readFile, readFile, hfind, hfind']

theorem isOk_metadata_eq (h : LeftAlone S T v w) (hv : v.Unlinked) (hp : v.Straight p q)
    (hq : S q) : (w.metadata p).isOk = (v.metadata p).isOk := by
  rw [Bool.eq_iff_iff, (h.straight hv hp).isOk_metadata h.unlinked, hp.isOk_metadata hv,
    h.same q hq]

/-! ## Single changes -/

/-- Something other than a directory is put in its place or replaced. -/
theorem put (h : LeftAlone S T v w) (hfront : w.item? front = some .directory) (hn : IsPlain n)
    (hr : w.item? (front ++ [n]) ≠ some .directory) (hi : ∀ target, i ≠ .link target)
    (hS : ¬ S (front ++ [n]))
    (hT : T (front ++ [n]) → i = .directory ∧ w.item? (front ++ [n]) = none) :
    LeftAlone S T v (w.put (front ++ [n]) i) := by
  have hput := item?_put w (p := front ++ [n]) (by simp) i
  refine ⟨by rw [current_put, h.current], h.unlinked.put hfront hn hr hi, ?_, ?_, ?_, ?_⟩
  · intro q hq
    have hne : q ≠ front ++ [n] := by
      rintro rfl
      exact hr (h.directory _ hq)
    rw [hput, if_neg hne, h.directory q hq]
  · intro q hq
    have hne : q ≠ front ++ [n] := by
      rintro rfl
      exact hS hq
    rw [hput, if_neg hne, h.same q hq]
  · intro q hq
    rw [← h.content q hq]
    by_cases hqr : q = front ++ [n]
    · obtain ⟨rfl, hnone⟩ := hT (hqr ▸ hq)
      rw [hqr, contentAt?_of_none hnone, contentAt?_of_directory (by rw [hput, if_pos rfl])]
    · rw [contentAt?, contentAt?, hput, if_neg hqr]
  · exact fun q hq => nodup_children_put (by simp) i (h.listed q hq)

/-- A file is taken away. -/
theorem remove (h : LeftAlone S T v w) (hr : w.item? r ≠ some .directory) (hS : ¬ S r) (hT : ¬ T r) :
    LeftAlone S T v (w.remove r) := by
  have hremove : ∀ q, q ≠ r → (w.remove r).item? q = w.item? q := by
    intro q hne
    rw [item?_remove]
    split
    · next hbelow =>
      rcases hitem : w.item? q with _ | i
      · rfl
      · have hstanding := h.unlinked.standing hitem
        exact absurd (hstanding.above r (List.isPrefixOf_iff_prefix.1 hbelow.2) hne.symm) hr
    · rfl
  have hne : ∀ {U : List String → Prop} {q : List String}, ¬ U r → U q → q ≠ r := by
    rintro U q hU hq rfl
    exact hU hq
  refine ⟨h.current, h.unlinked.remove hr, ?_, ?_, ?_, ?_⟩
  · intro q hq
    have hdirectory := h.directory q hq
    rw [hremove q, hdirectory]
    rintro rfl
    exact hr hdirectory
  · exact fun q hq => (hremove q (hne hS hq)).trans (h.same q hq)
  · intro q hq
    rw [← h.content q hq, contentAt?, contentAt?, hremove q (hne hT hq)]
  · exact fun q hq => nodup_children_remove r (h.listed q hq)

/-- Directories are made on the way to a place. -/
theorem makeDirs (h : LeftAlone S T v w) (hp : w.Straight p q) (hlen : p.utf8ByteSize ≤ longestPath)
    (hu : w.makeDirs p = .ok u) (hS : ∀ r, r <+: q → S r → w.item? r = some .directory) :
    LeftAlone S T v u := by
  obtain ⟨-, hmade⟩ := hp.made_of_makeDirs h.unlinked hlen hu
  have hwithin := within_makeDirs hu
  refine ⟨hwithin.current.trans h.current, h.unlinked.makeDirs hu,
    fun r hr => hwithin.item _ _ (h.directory r hr), ?_, ?_, ?_⟩
  · intro r hr
    rw [hmade r, if_neg, h.same r hr]
    rintro ⟨hnone, hbelow⟩
    rw [hS r hbelow hr] at hnone
    cases hnone
  · intro r hr
    rw [← h.content r hr]
    by_cases hnew : w.item? r = none ∧ r <+: q
    · rw [contentAt?_of_none hnew.1, contentAt?_of_directory (by rw [hmade r, if_pos hnew])]
    · rw [contentAt?, contentAt?, hmade r, if_neg hnew]
  · intro r hr
    refine makeDirsOf_induction (P := fun u => (u.children r).Nodup) ?_ (h.listed r hr) hu
    intro a b m _ ha hmake
    obtain ⟨s, -, hs, rfl⟩ := exists_put_of_makeDir hmake
    exact nodup_children_put hs _ ha

end LeftAlone

namespace Clears

variable {S S' T : List String → Prop} {v w : Volume} {p q : List String}

/-- A directory clears what is neither in it nor above it. -/
theorem of_apart (h : ¬ p <+: q) (h' : ¬ q <+: p) : v.Clears (p <+: ·) q :=
  ⟨fun r hr => (List.prefix_or_prefix_of_prefix hr (List.prefix_append q r)).elim h h',
    fun _ hr hp => absurd (hp.trans hr) h⟩

theorem or (h : v.Clears S q) (h' : v.Clears S' q) : v.Clears (fun r => S r ∨ S' r) q :=
  ⟨fun r hr => hr.elim (h.below r) (h'.below r),
    fun r hr hs => hs.elim (h.above r hr) (h'.above r hr)⟩

theorem spared (h : v.Clears S q) (hw : LeftAlone S' T v w) : w.Clears S q :=
  ⟨h.below, fun r hr hs => hw.directory r (h.above r hr hs)⟩

end Clears

end CodeGraph.Volume
