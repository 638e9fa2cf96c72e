import CodeGraph.Proofs.Cache.Truthful

/-!
# Changes elsewhere

Whatever changes on a volume, as long as the directory of a disk layer stays in its place and holds
the same (`Untouched`), the disk layer holds the same values (`TruthfulDisk.untouched`). A shelf is
bound to the volume in which there was nothing in its directory yet, so another one has to take its
place: the changed volume without what is in the directory (`Volume.emptied`) is its ground.
-/

namespace CodeGraph

namespace Volume

/-- A volume without what is in a directory. -/
def emptied (v : Volume) (q : List String) : Volume :=
  { v with entries := v.entries.filter fun e => e.1 == q || !q.isPrefixOf e.1 }

variable {v : Volume} {q : List String}

theorem item?_emptied (v : Volume) (q p : List String) :
    (v.emptied q).item? p = if p = q ∨ ¬ q <+: p then v.item? p else none := by
  by_cases hp : p = []
  · subst hp
    rw [item?_nil, item?_nil, if_pos]
    rcases q with _ | ⟨n, q⟩ <;> simp
  · rw [item?_of_ne_nil _ hp, item?_of_ne_nil _ hp]
    refine (lookup_filter (fun p => p == q || !q.isPrefixOf p) p v.entries).trans ?_
    simp [← Bool.not_eq_true, List.isPrefixOf_iff_prefix]

theorem item?_emptied_below {r : List String} (hr : r ≠ []) :
    (v.emptied q).item? (q ++ r) = none := by
  rw [item?_emptied, if_neg]
  simp [hr]

theorem emptied_within (v : Volume) (q : List String) : (v.emptied q).Within v := by
  refine ⟨rfl, ?_⟩
  intro p i hi
  rw [item?_emptied] at hi
  exact (Option.ite_none_right_eq_some.1 hi).2

end Volume

namespace Cache

/-- From one volume to another nothing has changed in a directory: the path leads to the same place,
not through what is in it, and there it is the same. Without a directory there is none still or an
empty one. -/
structure Untouched (dir : String) (v w : Volume) : Prop where
  leads : ∀ q, v.LeadsTo dir q → (w.emptied q).LeadsTo dir q
  item : ∀ q, v.LeadsTo dir q → ∀ r, w.item? (q ++ r) = v.item? (q ++ r)
  listed : ∀ q, v.LeadsTo dir q → (w.children q).Nodup
  missing : v.readDir dir = .error .notFound → Fresh w dir

namespace Shelf

variable {S : Shelf} {v w : Volume}

/-- Another shelf takes the place of one in the changed volume. -/
theorem Stocked.untouched (h : S.Stocked v) (hw : Untouched S.path v w) :
    ∃ T : Shelf, T.path = S.path ∧ T.Stocked w ∧ ∀ d e, T.fileAt w d e = S.fileAt v d e := by
  have hitem := hw.item S.base h.leads
  let T : Shelf := ⟨S.path, S.base, w.emptied S.base, hw.leads S.base h.leads,
    fun r hr => Volume.item?_emptied_below hr, S.roomy⟩
  refine ⟨T, rfl, ⟨Volume.emptied_within w S.base, ?_, hw.listed S.base h.leads⟩, ?_⟩
  · intro r i hr hi
    rw [hitem r] at hi
    have hshard : ∀ d, S.HasShard v d → T.HasShard w d := fun d hd => (hitem [shardOf d]).trans hd
    cases h.known r i hr hi with
    | shard hd => exact .shard hd
    | file hd he hs => exact .file hd he (hshard _ hs)
  · intro d e
    have hplace : w.item? (T.place d e) = v.item? (S.place d e) := hitem [shardOf d, d ++ e]
    rw [fileAt, fileAt, hplace]

theorem Site.untouched (h : S.Site v) (hw : Untouched S.path v w) :
    ∃ T : Shelf, T.path = S.path ∧ T.Site w ∧ ∀ d e, T.fileAt w d e = S.fileAt v d e := by
  cases h with
  | missing hmissing =>
    obtain ⟨T, hpath, hsite, hnone⟩ := (hw.missing hmissing.readDir).exists_shelf
    exact ⟨T, hpath, hsite, fun d e => (hnone d e).trans hmissing.fileAt.symm⟩
  | stocked hstocked =>
    obtain ⟨T, hpath, hstocked', hfile⟩ := hstocked.untouched hw
    exact ⟨T, hpath, .stocked hstocked', hfile⟩

/-- A disk layer stands for the same content after changes elsewhere. -/
theorem Accounted.untouched {s : DiskState} {m : Content} (h : S.Accounted s m)
    (hw : Untouched S.path s.drive.volume w) :
    ∃ T : Shelf, T.path = S.path ∧ T.Accounted ⟨s.cache, ⟨w, []⟩⟩ m := by
  obtain ⟨T, hpath, hsite, hfile⟩ := h.settled.site.untouched hw
  refine ⟨T, hpath, ⟨h.settled.directory.trans hpath.symm, rfl, hsite, ?_, h.settled.entry,
    h.settled.index⟩, h.own, h.fits⟩
  intro d e hd
  exact (hfile d e).trans (h.settled.file d e hd)

end Shelf

namespace LayeredCache.TruthfulDisk

variable {V : Type} [Json.Form V] {k : Findings V} {dir : String} {s : DiskState} {w : Volume}

theorem untouched (h : TruthfulDisk k dir s) (hw : Untouched dir s.drive.volume w) :
    TruthfulDisk k dir ⟨s.cache, ⟨w, []⟩⟩ := by
  obtain ⟨S, m, rfl, haccounted, hcontent⟩ := h
  obtain ⟨T, hpath, haccounted'⟩ := haccounted.untouched hw
  exact ⟨T, m, hpath, haccounted', hcontent⟩

theorem faultless (h : TruthfulDisk k dir s) : s.drive.faults = [] := by
  obtain ⟨S, m, -, haccounted, -⟩ := h
  exact haccounted.settled.faultless

/-- A directory that is fresh holds no values. -/
theorem of_fresh {settings : DiskSettings} {drive : Drive} (hdir : settings.directory = dir)
    (hfresh : Fresh drive.volume dir) (hfaults : drive.faults = []) :
    TruthfulDisk k dir ⟨DiskCache.new settings, drive⟩ := by
  subst hdir
  obtain ⟨S, hpath, haccounted⟩ := Shelf.exists_accounted_new settings drive hfresh hfaults
  exact ⟨S, _, hpath, haccounted, fun d p hp => by cases hp⟩

end LayeredCache.TruthfulDisk

theorem LayeredCache.Truthful.untouched {V : Type} [Json.Form V] {k : Findings V}
    {place : Option String} {s : LayeredState V} {w : Volume} (h : Truthful k place s)
    (hw : ∀ dir, place = some dir → Untouched dir s.drive.volume w) :
    Truthful k place { s with drive := ⟨w, []⟩ } := by
  refine ⟨h.memory, h.queue, ?_⟩
  intro side hside
  obtain ⟨dir, hplace, hdisk⟩ := h.disk side hside
  exact ⟨dir, hplace, hdisk.untouched (hw dir hplace)⟩

end Cache

end CodeGraph
