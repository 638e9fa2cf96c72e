import CodeGraph.Cache.Layered
import CodeGraph.Proofs.Cache.AnyDirectory
import CodeGraph.Proofs.Cache.Reopening

/-!
# Orders to the disk layer

A disk layer that is ordered to store values and to be cleared, and that is asked for values and for
its statistics in between, is compared with one that only carries the orders out, one by one
(`DiskState.after`). The two have the same files all along, and the same index as soon as each has made
its own (`DiskState.Agrees`): looking changes nothing but whether the index has been made
(`Shelf.Twins`).

Orders may wait. A disk layer follows its orders if those that do not wait any more are the first ones
and have been carried out in turn (`Shelf.Follows`).
-/

namespace CodeGraph.Cache

/-- What a disk layer is ordered to do. -/
inductive DiskOrder where
  | put (w : PendingWrite)
  | clear

/-- Carries an order out at a time. -/
def DiskOrder.carryOut (now : UInt64) : DiskOrder → DiskM Unit
  | .put w => do
    let _ ← DiskCache.set now w.key w.content
    return
  | .clear => DiskCache.clear

namespace DiskState

/-- A disk layer after orders have been carried out one by one. -/
def after (s : DiskState) (done : List (UInt64 × DiskOrder)) : DiskState :=
  done.foldl (fun s p => ((p.2.carryOut p.1).run.run s).2) s

theorem after_concat (s : DiskState) (done : List (UInt64 × DiskOrder)) (now : UInt64)
    (order : DiskOrder) :
    s.after (done ++ [(now, order)]) = ((order.carryOut now).run.run (s.after done)).2 := by
  rw [after, List.foldl_append]
  rfl

/-- Two disk layers with the same files that are the same once each has made its index. -/
def Agrees (s t : DiskState) : Prop :=
  t.drive = s.drive ∧ ∃ u, DiskCache.ensureIndex.run.run s = (.ok (), u) ∧
    DiskCache.ensureIndex.run.run t = (.ok (), u)

/-- The orders that do not wait have been carried out on a disk layer, each once and in turn. -/
def CarriedOut (start : DiskState) (orders : List DiskOrder) (s : DiskState)
    (waiting : List PendingWrite) : Prop :=
  ∃ done : List (UInt64 × DiskOrder),
    done.map Prod.snd ++ waiting.map DiskOrder.put = orders ∧ (start.after done).Agrees s

/-- One of the orders comes to a disk that cannot count its value and the others in a word. -/
def Overfull (start : DiskState) (orders : List DiskOrder) : Prop :=
  ∃ (done : List (UInt64 × DiskOrder)) (w : PendingWrite) (base : List String)
    (l : List (Sidecar × ByteArray)), done.map Prod.snd ++ [.put w] <+: orders ∧
      DiskCache.Holds (start.after done).drive.volume start.cache.directory base l ∧
      UInt64.size ≤ DiskCache.totalOf l + w.content.size

theorem Overfull.more {start : DiskState} {orders : List DiskOrder} (h : Overfull start orders)
    (further : List DiskOrder) : Overfull start (orders ++ further) := by
  obtain ⟨done, w, base, l, hprefix, hholds, htotal⟩ := h
  exact ⟨done, w, base, l, hprefix.trans (List.prefix_append ..), hholds, htotal⟩

end DiskState

/-! ## Clearing -/

/-- Whether an operation neither looks at the index nor changes it. -/
def Blind {α : Type} (op : DiskM α) : Prop :=
  ∀ drive, ∃ r drive', ∀ c, op.run.run ⟨c, drive⟩ = (r, ⟨c, drive'⟩)

section Blind

variable {α β : Type}

theorem Blind.bind {x : DiskM α} {f : α → DiskM β} (hx : Blind x) (hf : ∀ a, Blind (f a)) :
    Blind (x >>= f) := by
  intro drive
  obtain ⟨r, drive', hrun⟩ := hx drive
  rcases r with e | a
  · exact ⟨.error e, drive', fun c => run_bind_error (hrun c)⟩
  · obtain ⟨r', drive'', hrun'⟩ := hf a drive'
    exact ⟨r', drive'', fun c => (run_bind_ok (hrun c)).trans (hrun' c)⟩

theorem blind_file (path : String) (op : FileM (Except OsError α)) : Blind (DiskM.file path op) :=
  fun drive => ⟨(op.run drive).1.mapError (.io path), (op.run drive).2, fun c =>
    DiskM.run_file path op ⟨c, drive⟩⟩

theorem blind_clearNames (directory : String) (names : List String) :
    Blind (DiskCache.clearNames directory names) := by
  induction names with
  | nil => exact fun drive => ⟨.ok (), drive, fun _ => rfl⟩
  | cons name names ih =>
    refine (blind_file _ _).bind fun kind => ?_
    split
    · exact (blind_file _ _).bind fun _ => ih
    · exact (blind_file _ _).bind fun _ => ih

/-- What clearing leaves of the files does not depend on the index. -/
theorem drive_clear {c c' : DiskCache} (hdir : c'.directory = c.directory) (drive : Drive) :
    (DiskCache.clear.run.run ⟨c', drive⟩).2.drive = (DiskCache.clear.run.run ⟨c, drive⟩).2.drive := by
  rw [DiskCache.clear, run_bind_ok (run_get _), run_bind_ok (run_get _)]
  simp only [hdir]
  rw [run_bind_ok (DiskM.run_files _ _), run_bind_ok (DiskM.run_files _ _)]
  rcases (FileM.readDir c.directory).run drive with ⟨e | names, drive'⟩
  · cases e <;> rfl
  · simp only
    obtain ⟨r, drive'', hrun⟩ := blind_clearNames c.directory names drive'
    rcases r with e | _
    · rw [run_bind_error (hrun _), run_bind_error (hrun _)]
    · rw [run_bind_ok (hrun _), run_bind_ok (hrun _)]
      rfl

end Blind

/-! ## Storing -/

namespace DiskCache

variable {s u : DiskState} {now : UInt64} {key : String} {content : ByteArray}

/-- A store makes the index first. -/
theorem run_set_of_ensured (hsize : ¬ s.cache.maxSize < UInt64.ofNat content.size)
    (hensure : ensureIndex.run.run s = (.ok (), u)) (hseeded : u.cache.seeded = true)
    (hmax : u.cache.maxSize = s.cache.maxSize) :
    (set now key content).run.run s = (set now key content).run.run u := by
  have hsize' : ¬ u.cache.maxSize < UInt64.ofNat content.size := by
    rw [hmax]
    exact hsize
  rw [set, run_bind_ok (run_get s), run_bind_ok (run_get u)]
  simp only [if_neg hsize, if_neg hsize']
  rw [run_bind_ok hensure, run_bind_ok (ensureIndex_of_seeded hseeded)]

end DiskCache

namespace Shelf

variable {S : Shelf} {s t u : DiskState} {m : Content} {now : UInt64} {key : String}
  {content : ByteArray}

/-! ## Two disk layers on the same files -/

/-- Two disk layers with one budget on the same files, which stand for a content. -/
structure Twins (S : Shelf) (m : Content) (s t : DiskState) : Prop where
  first : S.Accounted s m
  second : S.Accounted t m
  drive : t.drive = s.drive
  maxSize : t.cache.maxSize = s.cache.maxSize

namespace Twins

theorem refl (h : S.Accounted s m) : S.Twins m s s :=
  ⟨h, h, rfl, rfl⟩

/-- Once each has made its index they are the same. -/
theorem run_ensureIndex (h : S.Twins m s t) :
    ∃ u, DiskCache.ensureIndex.run.run s = (.ok (), u) ∧
      DiskCache.ensureIndex.run.run t = (.ok (), u) ∧ S.Accounted u m ∧ u.cache.seeded = true ∧
      u.drive = s.drive ∧ u.cache.maxSize = s.cache.maxSize := by
  obtain ⟨⟨⟨dir, max, index, seeded⟩, drive⟩, hs, hu, hseeded, hdrive, hmax⟩ := h.first.run_ensureIndex
  obtain ⟨⟨⟨dir', max', index', seeded'⟩, drive'⟩, ht, hu', hseeded', hdrive', hmax'⟩ :=
    h.second.run_ensureIndex
  refine ⟨_, hs, ?_, hu, hseeded, hdrive, hmax⟩
  obtain rfl : index' = index := hu.settled.index_eq hu'.settled hseeded hseeded'
  obtain rfl : dir' = dir := hu'.settled.directory.trans hu.settled.directory.symm
  obtain rfl : seeded' = seeded := hseeded'.trans hseeded.symm
  obtain rfl : max' = max := hmax'.trans (h.maxSize.trans hmax.symm)
  obtain rfl : drive' = drive := hdrive'.trans (h.drive.trans hdrive.symm)
  exact ht

theorem agrees (h : S.Twins m s t) : s.Agrees t := by
  obtain ⟨u, hs, ht, -⟩ := h.run_ensureIndex
  exact ⟨h.drive, u, hs, ht⟩

/-- An index that is made on one side makes no difference. -/
theorem look (h : S.Twins m s t) :
    ∃ t', DiskCache.ensureIndex.run.run t = (.ok (), t') ∧ S.Twins m s t' := by
  obtain ⟨u, -, ht, hu, -, hdrive, hmax⟩ := h.run_ensureIndex
  exact ⟨u, ht, h.first, hu, hdrive, hmax⟩

/-- Both store a value or refuse it. The second may instead fail, if the value and the others are more
than a word can count. -/
theorem set (h : S.Twins m s t) (now : UInt64) (key : String)
    (hlength : content.size < UInt64.size) :
    (∃ t', (DiskCache.set now key content).run.run t = (.error .overflow, t') ∧
        ∀ bound, DiskIndex.Fits m.indexed bound → UInt64.size ≤ bound + content.size) ∨
      ∃ kept s' t' m', (DiskCache.set now key content).run.run s = (.ok kept, s') ∧
        (DiskCache.set now key content).run.run t = (.ok kept, t') ∧ S.Twins m' s' t' := by
  by_cases hlarge : s.cache.maxSize < UInt64.ofNat content.size
  · right
    have hlarge' : t.cache.maxSize < UInt64.ofNat content.size := by
      rw [h.maxSize]
      exact hlarge
    exact ⟨false, s, t, m, DiskCache.set_refused hlarge, DiskCache.set_refused hlarge', h⟩
  · have hlarge' : ¬ t.cache.maxSize < UInt64.ofNat content.size := by
      rw [h.maxSize]
      exact hlarge
    obtain ⟨u, hs, ht, hu, hseeded, -, hmax⟩ := h.run_ensureIndex
    have hmax' : u.cache.maxSize = t.cache.maxSize := hmax.trans h.maxSize.symm
    rw [DiskCache.run_set_of_ensured hlarge hs hseeded hmax,
      DiskCache.run_set_of_ensured hlarge' ht hseeded hmax']
    rcases hu.run_set now key hlength with
      ⟨-, hrun⟩ | ⟨u', hrun, hover⟩ | ⟨u', m', -, hrun, hu', -⟩
    · exact .inr ⟨false, u, u, m, hrun, hrun, .refl hu⟩
    · exact .inl ⟨u', hrun, hover⟩
    · exact .inr ⟨true, u', u', m', hrun, hrun, .refl hu'⟩

theorem clear (h : S.Twins m s t) :
    ∃ s' t', DiskCache.clear.run.run s = (.ok (), s') ∧ DiskCache.clear.run.run t = (.ok (), t') ∧
      S.Twins (fun _ => none) s' t' := by
  obtain ⟨s', hs, hfirst, hcache⟩ := h.first.run_clear
  obtain ⟨t', ht, hsecond, hcache'⟩ := h.second.run_clear
  have hmax : s'.cache.maxSize = s.cache.maxSize := by rcases hcache with h | h <;> rw [h]
  have hmax' : t'.cache.maxSize = t.cache.maxSize := by rcases hcache' with h | h <;> rw [h]
  refine ⟨s', t', hs, ht, hfirst, hsecond, ?_, ?_⟩
  · have hdrive := drive_clear
      (h.second.settled.directory.trans h.first.settled.directory.symm) t.drive
    rw [ht, h.drive, hs] at hdrive
    exact hdrive
  · rw [hmax, hmax']
    exact h.maxSize

end Twins

/-! ## Following orders -/

/-- The entries of an accounted disk layer, with what they weigh. -/
theorem Accounted.exists_holds (h : S.Accounted s m) :
    ∃ l, DiskCache.Holds s.drive.volume S.path S.base l ∧
      DiskIndex.Fits m.indexed (DiskCache.totalOf l) := by
  obtain ⟨l, hnodup, hmem, hfits, -⟩ := h.exists_list
  exact ⟨l, h.holds hnodup hmem, (hfits _).2 (Nat.le_refl _)⟩

/-- A disk layer without entries has an empty directory and empty accounts. -/
theorem Accounted.empty (h : S.Accounted s fun _ => none) :
    DiskCache.Holds s.drive.volume s.cache.directory S.base [] ∧
      ∃ s', DiskCache.stats.run.run s = (.ok ⟨0, 0, s.cache.maxSize⟩, s') := by
  obtain ⟨l, hnodup, hmem, -, s', total, hstats, htotal⟩ := h.exists_list
  obtain rfl : l = [] := List.eq_nil_iff_forall_not_mem.2 fun p hp => by cases (hmem p).1 hp
  obtain rfl : total = 0 := UInt64.toNat_inj.1 htotal
  rw [h.settled.directory]
  exact ⟨h.holds hnodup hmem, s', hstats⟩

/-- A disk layer that has carried out its orders but those that wait. -/
structure Follows (S : Shelf) (start : DiskState) (orders : List DiskOrder) (s : DiskState)
    (waiting : List PendingWrite) : Prop where
  directory : start.cache.directory = S.path
  size : ∀ w ∈ waiting, w.content.size < UInt64.size
  done : ∃ (done : List (UInt64 × DiskOrder)) (m : Content),
    done.map Prod.snd ++ waiting.map DiskOrder.put = orders ∧ S.Twins m (start.after done) s

namespace Follows

variable {start s' : DiskState} {orders : List DiskOrder} {waiting : List PendingWrite}
  {w : PendingWrite}

theorem carriedOut (h : S.Follows start orders s waiting) : start.CarriedOut orders s waiting := by
  obtain ⟨done, m, horders, htwins⟩ := h.done
  exact ⟨done, horders, htwins.agrees⟩

/-- One more value is ordered to be stored. -/
theorem order (h : S.Follows start orders s waiting) (hsize : w.content.size < UInt64.size) :
    S.Follows start (orders ++ [.put w]) s (waiting ++ [w]) := by
  obtain ⟨done, m, horders, htwins⟩ := h.done
  refine ⟨h.directory, ?_, done, m, ?_, htwins⟩
  · intro w' hw'
    rcases List.mem_append.1 hw' with hw' | hw'
    · exact h.size w' hw'
    · obtain rfl := List.mem_singleton.1 hw'
      exact hsize
  · rw [List.map_append, ← List.append_assoc, horders]
    rfl

theorem run_ensureIndex (h : S.Follows start orders s waiting) :
    ∃ s', DiskCache.ensureIndex.run.run s = (.ok (), s') ∧ S.Follows start orders s' waiting := by
  obtain ⟨done, m, horders, htwins⟩ := h.done
  obtain ⟨s', hrun, htwins'⟩ := htwins.look
  exact ⟨s', hrun, h.directory, h.size, done, m, horders, htwins'⟩

/-- The first order that waits is carried out, unless its value is one too much for a word. -/
theorem run_set (h : S.Follows start orders s (w :: waiting)) (now : UInt64) :
    (∃ s', (DiskCache.set now w.key w.content).run.run s = (.error .overflow, s') ∧
        start.Overfull orders) ∨
      ∃ kept s', (DiskCache.set now w.key w.content).run.run s = (.ok kept, s') ∧
        S.Follows start orders s' waiting := by
  obtain ⟨done, m, horders, htwins⟩ := h.done
  have hsize := h.size w (List.mem_cons_self ..)
  have horders' : done.map Prod.snd ++ [.put w] ++ waiting.map .put = orders := by
    rw [← horders, List.append_assoc]
    rfl
  rcases htwins.set now w.key hsize with ⟨s', hrun, hover⟩ | ⟨kept, t', s', m', hfirst, hrun, htwins'⟩
  · left
    obtain ⟨l, hholds, hfits⟩ := htwins.first.exists_holds
    refine ⟨s', hrun, done, w, S.base, l, ⟨_, horders'⟩, ?_, hover _ hfits⟩
    rw [h.directory]
    exact hholds
  · right
    have hafter : start.after (done ++ [(now, .put w)]) = t' := by
      rw [DiskState.after_concat, DiskOrder.carryOut, run_bind_pure, hfirst]
    refine ⟨kept, s', hrun, h.directory, fun w' hw' => h.size w' (List.mem_cons_of_mem _ hw'),
      done ++ [(now, .put w)], m', ?_, ?_⟩
    · rw [List.map_append]
      exact horders'
    · rw [hafter]
      exact htwins'

/-- Clearing is carried out at once. -/
theorem run_clear (h : S.Follows start orders s []) (now : UInt64) :
    ∃ s', DiskCache.clear.run.run s = (.ok (), s') ∧
      S.Follows start (orders ++ [.clear]) s' [] ∧ S.Accounted s' fun _ => none := by
  obtain ⟨done, m, horders, htwins⟩ := h.done
  obtain ⟨t', s', hfirst, hrun, htwins'⟩ := htwins.clear
  have hafter : start.after (done ++ [(now, .clear)]) = t' := by
    rw [DiskState.after_concat, DiskOrder.carryOut, hfirst]
  refine ⟨s', hrun, ⟨h.directory, fun w hw => (by cases hw), done ++ [(now, .clear)], fun _ => none,
    ?_, ?_⟩, htwins'.second⟩
  · rw [List.map_append, ← horders, List.map_nil, List.append_nil, List.append_nil]
    rfl
  · rw [hafter]
    exact htwins'

end Follows

end Shelf

end CodeGraph.Cache
