import CodeGraph.Proofs.Cache.AnyDirectory
import CodeGraph.Proofs.Cache.Index
import CodeGraph.Proofs.Cache.Runs

/-!
# Which entries make room

The entries that an index drops for a new one come from the front of the others in order of age
(`DiskIndex.others`), and no shorter front would do. The index takes one entry at a time from the front of
its ages (`DiskIndex.eq_cons_of_oldest?`), so the loop follows the list: it stops at the first place where
what is left fits (`DiskIndex.makeRoom_takes_shortest`), and for an entry that fits alone there is such a
place, at the end if nowhere else.

How an index has come about does not matter, as long as it began empty and was changed by its operations
only (`DiskIndex.Reachable`): its total is the sum of its sizes then. The index of a disk layer is one
of these after any calls, whatever the directory holds and whatever fails (`reachable_of_runs`).
-/

namespace CodeGraph.Cache

namespace DiskIndex

variable {x y : DiskIndex} {d : String} {e : IndexedEntry} {size maxSize : UInt64}
  {l victims front back : List (String × IndexedEntry)}

/-! ## The order of age -/

/-- The age of an entry. -/
def ageOf (p : String × IndexedEntry) : Age :=
  ⟨p.2.timestamp, p.1⟩

/-- Entries of different ages, the oldest first. -/
def Aging (l : List (String × IndexedEntry)) : Prop :=
  l.Pairwise fun p q => (ageOf p).Older (ageOf q)

/-- Entries in order of their time and, at one time, of their digest. -/
def byTime (l : List (String × IndexedEntry)) : List (String × IndexedEntry) :=
  l.mergeSort fun p q => !decide ((ageOf q).Older (ageOf p))

/-- The entries of other digests than the given one, the oldest first. -/
def others (x : DiskIndex) (d : String) : List (String × IndexedEntry) :=
  byTime (x.entries.erase d).entries

/-- The sizes of entries, added up. -/
def sizes (l : List (String × IndexedEntry)) : Nat :=
  (l.map fun p => p.2.size.toNat).sum

theorem weight_eq_sizes (h : l.Perm x.entries.entries) : x.weight = sizes l :=
  ((h.map _).sum_nat).symm

theorem perm_byTime (l : List (String × IndexedEntry)) : (byTime l).Perm l :=
  List.mergeSort_perm l _

theorem not_older_trans {a b c : Age} (hab : ¬ b.Older a) (hbc : ¬ c.Older b) : ¬ c.Older a := by
  intro hca
  by_cases hsame : b = a
  · exact hbc (hsame ▸ hca)
  · exact hbc (hca.trans (Age.older_of_not_older hab hsame))

theorem pairwise_byTime (l : List (String × IndexedEntry)) :
    (byTime l).Pairwise fun p q => ¬ (ageOf q).Older (ageOf p) := by
  have h : (byTime l).Pairwise fun p q => !decide ((ageOf q).Older (ageOf p)) :=
    List.pairwise_mergeSort
      (fun p q r hpq hqr => by
        simp only [Bool.not_eq_true', decide_eq_false_iff_not] at hpq hqr ⊢
        exact not_older_trans hpq hqr)
      (fun p q => by
        simp only [Bool.or_eq_true, Bool.not_eq_true', decide_eq_false_iff_not]
        by_cases hqp : (ageOf q).Older (ageOf p)
        · exact .inr fun hpq => (ageOf p).not_older_self (hpq.trans hqp)
        · exact .inl hqp) l
  exact h.imp fun hpq => by simpa using hpq

/-- Entries of different digests stand in strict order. -/
theorem aging_byTime (hl : (l.map Prod.fst).Nodup) : Aging (byTime l) := by
  have hnodup : ((byTime l).map Prod.fst).Nodup := ((perm_byTime l).map _).nodup_iff.2 hl
  rw [List.Nodup, List.pairwise_map] at hnodup
  refine ((pairwise_byTime l).and hnodup).imp ?_
  rintro p q ⟨hnot, hne⟩
  exact Age.older_of_not_older hnot fun heq => hne (congrArg Age.digest heq).symm

theorem perm_others (x : DiskIndex) (d : String) :
    (x.others d).Perm (x.remove d).entries.entries := by
  rw [entries_remove]
  exact perm_byTime _

theorem aging_others (x : DiskIndex) (d : String) : Aging (x.others d) :=
  aging_byTime (NameMap.nodup_names _)

/-! ## One step of the loop -/

theorem first?_of_oldest? {v : String × IndexedEntry} (hold : x.oldest? = some v) :
    x.byAge.first? = some (ageOf v) := by
  rw [oldest?] at hold
  split at hold
  · cases hold
  next a hfirst =>
  obtain ⟨e, he, htime⟩ := (x.inStep a).1 (AgeSet.mem_of_first? hfirst)
  cases hold
  simp only [hfirst, ageOf, he, Option.get_some, htime]

/-- No entry is older than the oldest one. -/
theorem not_older_of_oldest? {v : String × IndexedEntry} (hold : x.oldest? = some v) {a : Age}
    (ha : a ∈ x.byAge.ages) : ¬ a.Older (ageOf v) := by
  have hsorted := x.byAge.sorted
  obtain ⟨rest, hages⟩ := List.head?_eq_some_iff.1 (first?_of_oldest? hold)
  rw [hages] at ha hsorted
  rcases List.mem_cons.1 ha with rfl | ha
  · exact Age.not_older_self _
  · exact fun h => Age.not_older_self _ (h.trans ((List.pairwise_cons.1 hsorted).1 a ha))

/-- The oldest entry is the first of the entries in order of age. -/
theorem eq_cons_of_oldest? {v : String × IndexedEntry} (hold : x.oldest? = some v)
    (hperm : l.Perm x.entries.entries) (hl : Aging l) : ∃ rest, l = v :: rest := by
  have hv : v ∈ l := hperm.mem_iff.2 (NameMap.get?_eq_some_iff.1 (get?_of_oldest? hold))
  rcases l with _ | ⟨p, rest⟩
  · cases hv
  rcases List.mem_cons.1 hv with rfl | hv
  · exact ⟨rest, rfl⟩
  -- The first entry would be older than the oldest one.
  have hp : p ∈ x.entries.entries := hperm.mem_iff.1 (List.mem_cons_self ..)
  have hage : ageOf p ∈ x.byAge.ages :=
    (x.inStep _).2 ⟨p.2, NameMap.get?_eq_some_iff.2 hp, rfl⟩
  have holder : (ageOf p).Older (ageOf v) := (List.pairwise_cons.1 hl).1 v hv
  have hnot : ¬ (ageOf p).Older (ageOf v) := not_older_of_oldest? hold hage
  exact absurd holder hnot

theorem perm_of_perm_cons {v : String × IndexedEntry} (hv : x.entries.get? v.1 = some v.2)
    (h : (v :: l).Perm x.entries.entries) : l.Perm (x.remove v.1).entries.entries := by
  rw [entries_remove]
  exact (h.trans (NameMap.perm_erase hv)).cons_inv

/-! ## The loop -/

/-- Enough has been dropped once the rest fits. -/
def Suffices (size maxSize : UInt64) (rest : List (String × IndexedEntry)) : Prop :=
  sizes rest + size.toNat ≤ maxSize.toNat

/-- Room is made by dropping the shortest front of the entries in order of age after which the rest
fits. -/
theorem makeRoom_takes_shortest (h : x.Exact) (hsize : size ≤ maxSize)
    (hword : x.weight + size.toNat < UInt64.size) (hperm : l.Perm x.entries.entries)
    (hl : Aging l) :
    ∃ kept, l = (makeRoom size maxSize x).1 ++ kept ∧
      kept.Perm (makeRoom size maxSize x).2.entries.entries ∧ Suffices size maxSize kept ∧
      ∀ front back, l = front ++ back → Suffices size maxSize back →
        (makeRoom size maxSize x).1 <+: front := by
  fun_induction makeRoom size maxSize x generalizing l with
  | case1 x hfits =>
    have hexact : x.totalSize.toNat = x.weight := h
    rw [UInt64.le_iff_toNat_le, UInt64.toNat_add, hexact, Nat.mod_eq_of_lt hword,
      weight_eq_sizes hperm] at hfits
    exact ⟨l, rfl, hperm, hfits, fun front _ _ _ => List.nil_prefix⟩
  | case2 x _ hold =>
    have hnil : l = [] := by
      rw [entries_of_oldest? hold] at hperm
      exact hperm.eq_nil
    refine ⟨l, rfl, hperm, ?_, fun front _ _ _ => List.nil_prefix⟩
    rw [hnil, Suffices, sizes, List.map_nil, List.sum_nil, Nat.zero_add]
    exact UInt64.le_iff_toNat_le.1 hsize
  | case3 x hfull v hold victims y hroom ih =>
    obtain ⟨rest, rfl⟩ := eq_cons_of_oldest? hold hperm hl
    have hweight := weight_remove_le x v.1
    obtain ⟨kept, hrest, hkept, hsuffices, hshortest⟩ := ih (h.remove v.1) (by omega)
      (perm_of_perm_cons (get?_of_oldest? hold) hperm) (List.pairwise_cons.1 hl).2
    rw [hroom] at hrest hkept hshortest
    refine ⟨kept, by rw [hrest, List.cons_append], hkept, hsuffices, fun front back hsplit hback => ?_⟩
    rcases front with _ | ⟨p, front⟩
    · -- The loop went on because everything together does not fit.
      refine absurd ?_ hfull
      have hexact : x.totalSize.toNat = x.weight := h
      rw [List.nil_append] at hsplit
      rw [← hsplit, Suffices, ← weight_eq_sizes hperm] at hback
      rw [UInt64.le_iff_toNat_le, UInt64.toNat_add, hexact, Nat.mod_eq_of_lt hword]
      exact hback
    · obtain ⟨rfl, hrest'⟩ := List.cons_eq_cons.1 hsplit
      exact (List.prefix_cons_inj v).2 (hshortest front back hrest' hback)

/-! ## Indexes that come about -/

/-- An index that was empty at first and has been changed by its operations only. -/
inductive Reachable : DiskIndex → Prop
  | empty : Reachable {}
  | insert {x y : DiskIndex} {d : String} {e : IndexedEntry} :
      Reachable x → x.insert d e = some y → Reachable y
  | remove {x : DiskIndex} (d : String) : Reachable x → Reachable (x.remove d)
  | reserve {x y : DiskIndex} {d : String} {e : IndexedEntry} {maxSize : UInt64}
      {victims : List (String × IndexedEntry)} :
      Reachable x → x.reserve d e maxSize = some (victims, y) → Reachable y

theorem Exact.reserve (h : x.Exact) (hreserve : x.reserve d e maxSize = some (victims, y)) :
    y.Exact := by
  obtain ⟨_, -, hreserve⟩ := Option.bind_eq_some_iff.1 hreserve
  obtain ⟨z, hinsert, heq⟩ := Option.map_eq_some_iff.1 hreserve
  obtain ⟨rfl, rfl⟩ := Prod.mk.injEq .. ▸ heq
  exact (insert_spec ((h.remove d).makeRoom _ _) hinsert).1

theorem Reachable.exact (h : x.Reachable) : x.Exact := by
  induction h with
  | empty => exact exact_empty
  | insert _ hinsert ih => exact (insert_spec ih hinsert).1
  | remove d _ ih => exact ih.remove d
  | reserve _ hreserve ih => exact ih.reserve hreserve

theorem reachable_of_ofList? (h : ofList? l = some x) : x.Reachable := by
  have hfold : ∀ (l : List (String × IndexedEntry)) (y : DiskIndex), y.Reachable →
      l.foldlM (fun x e => x.insert e.1 e.2) y = some x → x.Reachable := by
    intro l
    induction l with
    | nil =>
      intro y hy h
      obtain rfl : y = x := by simpa using h
      exact hy
    | cons p l ih =>
      intro y hy h
      rw [List.foldlM_cons] at h
      obtain ⟨z, hinsert, h⟩ := Option.bind_eq_some_iff.1 h
      exact ih z (hy.insert hinsert) h
  exact hfold l {} .empty h

/-! ## Making room -/

/-- What is dropped for a new entry, and the index that it is added to. -/
structure MakesRoom (x : DiskIndex) (d : String) (e : IndexedEntry) (maxSize : UInt64)
    (victims : List (String × IndexedEntry)) (y : DiskIndex) : Prop where
  /-- The dropped entries are a front of the others in order of age, and the rest fits. -/
  front : ∃ kept, x.others d = victims ++ kept ∧ Suffices e.size maxSize kept
  /-- Every front after which the rest fits goes at least as far. -/
  shortest : ∀ front back, x.others d = front ++ back → Suffices e.size maxSize back →
    victims <+: front
  nodup : (victims.map Prod.fst).Nodup
  /-- The entry that is replaced is not dropped. -/
  other : d ∉ victims.map Prod.fst
  get? : ∀ d', y.entries.get? d' =
    if d' = d then some e
    else if d' ∈ victims.map Prod.fst then none else x.entries.get? d'
  exact : y.Exact
  fits : y.totalSize ≤ maxSize

/-- **The oldest entries are dropped and no more than it takes**: for an entry that fits alone and
whose size and those of the others add up to a 64-bit word, room is made by dropping the shortest front
of the others in order of age after which the rest fits. The new entry is then in the index, the other
entries are as they were, and the total keeps to the limit. -/
theorem reserve_drops_oldest (hx : x.Reachable) (hsize : e.size ≤ maxSize)
    (hword : (x.remove d).weight + e.size.toNat < UInt64.size) :
    ∃ victims y, x.reserve d e maxSize = some (victims, y) ∧ MakesRoom x d e maxSize victims y := by
  have hexact := hx.exact
  rcases reserve_cases (d := d) hexact hsize with ⟨hover, -⟩ |
    ⟨victims, y, hreserve, hexact', hfits, hothers, hget⟩
  · exact absurd hword (Nat.not_lt.2 hover)
  have hvictims : (makeRoom e.size maxSize (x.remove d)).1 = victims := by
    obtain ⟨_, -, hreserve⟩ := Option.bind_eq_some_iff.1 hreserve
    obtain ⟨z, -, heq⟩ := Option.map_eq_some_iff.1 hreserve
    exact (Prod.mk.inj heq).1
  obtain ⟨kept, hsplit, -, hsuffices, hshortest⟩ := makeRoom_takes_shortest (hexact.remove d) hsize
    hword (perm_others x d) (aging_others x d)
  rw [hvictims] at hsplit hshortest
  refine ⟨victims, y, hreserve, ⟨kept, hsplit, hsuffices⟩, hshortest, (reserve_spec hreserve).2.1, ?_,
    hget, hexact', ?_⟩
  · intro hmem
    obtain ⟨v, hv, hname⟩ := List.mem_map.1 hmem
    exact (hothers v hv).1 hname
  · rw [UInt64.le_iff_toNat_le, hexact']
    exact hfits

/-- Of two entries of one time the one with the lesser digest goes first, and the one that is replaced
makes room without being dropped, though it is as old. -/
theorem reserve_drops_oldest_tied : ∃ x victims y,
    ofList? [("b", ⟨"k", 0, 4⟩), ("d", ⟨"k", 0, 9⟩), ("c", ⟨"k", 1, 4⟩), ("a", ⟨"k", 0, 4⟩)] = some x ∧
    x.reserve "d" ⟨"k", 2, 6⟩ 10 = some (victims, y) ∧
    MakesRoom x "d" ⟨"k", 2, 6⟩ 10 victims y ∧ victims.map Prod.fst = ["a", "b"] := by
  obtain ⟨x, hx⟩ : ∃ x, ofList? [("b", ⟨"k", 0, 4⟩), ("d", ⟨"k", 0, 9⟩), ("c", ⟨"k", 1, 4⟩),
      ("a", ⟨"k", 0, 4⟩)] = some x := Option.isSome_iff_exists.1 (by decide)
  have hword : (x.remove "d").weight = 12 := by
    obtain rfl := Option.some.inj hx
    rfl
  have hdropped : (x.reserve "d" ⟨"k", 2, 6⟩ 10).map (fun p => p.1.map Prod.fst) = some ["a", "b"] := by
    obtain rfl := Option.some.inj hx
    decide +kernel
  have hsize : (6 : UInt64) ≤ 10 := by decide
  obtain ⟨victims, y, hreserve, hroom⟩ := reserve_drops_oldest (x := x) (d := "d")
    (e := ⟨"k", 2, 6⟩) (reachable_of_ofList? hx) hsize (by rw [hword]; decide)
  rw [hreserve] at hdropped
  exact ⟨x, victims, y, hx, hreserve, hroom, Option.some.inj hdropped⟩

end DiskIndex

/-! ## The index of a disk layer -/

open DiskCache (Runs)

/-- The index of a state is one that has come about by operations. -/
def Indexed (s : DiskState) : Prop :=
  s.cache.index.Reachable

section Calls

variable {v : Volume} {c c' : DiskCache} {α : Type}

theorem reachable_of_made (h : c.index.Reachable) (hmade : Made v c c') : c'.index.Reachable := by
  rcases hmade with ⟨-, rfl⟩ | ⟨-, l, index, -, hindex, rfl⟩
  · exact h
  · exact DiskIndex.reachable_of_ofList? hindex

theorem reachable_of_storeFails {now : UInt64} {key : String} {content : ByteArray} {e : CacheError}
    (h : c.index.Reachable) (hfails : StoreFails c now key content e c') : c'.index.Reachable := by
  rcases hfails with ⟨-, -, rfl⟩ | ⟨victims, index, hreserve, ⟨-, rfl⟩ | ⟨-, rfl⟩⟩
  · exact h.remove _
  · exact h.reserve hreserve
  · exact (h.reserve hreserve).remove _

theorem Spared.indexed {s : DiskState} (hs : Spared v c s) (h : c.index.Reachable) : Indexed s := by
  obtain ⟨rfl, -⟩ := hs
  exact h

/-- What an operation does to the index is told from the volume that it meets. -/
theorem ends_of_indexed {op : DiskM α} {Q : α → DiskState → Prop} {E : CacheError → DiskState → Prop}
    (h : ∀ v c, c.index.Reachable → Ends (Spared v c) op Q E) : Ends Indexed op Q E :=
  ⟨fun s hs => (h s.drive.volume s.cache hs).from_state s ⟨rfl, .refl _⟩⟩

theorem indexed_set (now : UInt64) (key : String) (content : ByteArray) :
    Ends Indexed (DiskCache.set now key content) (fun _ => Indexed) fun _ => Indexed := by
  refine ends_of_indexed fun v c h => (ends_set now key content).imp (fun _ hs => hs) ?_ ?_
  · rintro kept s (⟨-, hs⟩ | ⟨-, c', victims, index, hmade, -, hreserve, hcache⟩)
    · exact hs.indexed h
    · rw [Indexed, hcache]
      exact (reachable_of_made h hmade).reserve hreserve
  · rintro e s (⟨-, hs⟩ | ⟨c', hmade, -, hfails⟩)
    · exact hs.indexed h
    · exact reachable_of_storeFails (reachable_of_made h hmade) hfails

theorem indexed_ensureIndex :
    Ends Indexed DiskCache.ensureIndex (fun _ => Indexed) fun _ => Indexed := by
  refine ends_of_indexed fun v c h => spares_ensureIndex.imp (fun _ hs => hs) ?_ ?_
  · rintro _ s ⟨c', hmade, hs⟩
    exact hs.indexed (reachable_of_made h hmade)
  · exact fun e s hs => hs.2.indexed h

theorem indexed_perform (call : DiskCall) :
    Ends Indexed call.perform (fun _ => Indexed) fun _ => Indexed := by
  have hgone : ∀ {v c s} (d : String), c.index.Reachable →
      Spared v c s ∨ Spared v { c with index := c.index.remove d } s → Indexed s := by
    rintro v c s d h (hsame | hgone)
    · exact hsame.indexed h
    · exact hgone.indexed (h.remove _)
  cases call with
  | set now key content => exact .bind (indexed_set now key content) fun _ => .pure fun _ h => h
  | setJson now key value => exact .bind (indexed_set now key _) fun _ => .pure fun _ h => h
  | get key =>
    exact .bind (ends_of_indexed fun v c h => (spares_get key).imp (fun _ hs => hs)
      (fun _ _ hs => hgone _ h hs) fun _ _ hs => hgone _ h hs.2) fun _ => .pure fun _ h => h
  | remove key =>
    exact .bind (ends_of_indexed fun v c h => (spares_removeDigest _).imp (fun _ hs => hs)
      (fun _ _ hs => hgone _ h (.inr hs)) fun _ _ hs => hgone _ h (.inr hs.2)) fun _ =>
        .pure fun _ h => h
  | clear =>
    refine .bind (ends_of_indexed fun v c h => spares_clear.imp (fun _ hs => hs) ?_
      fun _ _ hs => hs.2.indexed h) fun _ => .pure fun _ h => h
    rintro _ s (hsame | hempty)
    · exact hsame.indexed h
    · exact hempty.indexed .empty
  | stats =>
    refine .bind (.bind indexed_ensureIndex fun _ => .get_bind fun s hs => .pure ?_) fun _ =>
      .pure fun _ h => h
    rintro s rfl
    exact hs
  | reopen maxSize => exact .bind (.modify fun _ _ => .empty) fun _ => .pure fun _ h => h

end Calls

/-- The index of a disk layer has come about by its operations, after any calls. -/
theorem reachable_of_runs {settings : DiskSettings} {drive : Drive} {s : DiskState}
    {calls : List (DiskCall × Except CacheError DiskAnswer)}
    (h : Runs ⟨DiskCache.new settings, drive⟩ calls s) : s.cache.index.Reachable := by
  induction h with
  | start => exact .empty
  | @call s s' calls call r faults _ hrun ih =>
    rcases r with e | answer
    · exact (indexed_perform call).of_error (s := s.facing faults) ih hrun
    · exact (indexed_perform call).of_ok (s := s.facing faults) ih hrun

end CodeGraph.Cache
