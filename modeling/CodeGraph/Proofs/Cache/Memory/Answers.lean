import CodeGraph.Proofs.Cache.Memory.Runs

/-!
# The answers of the memory layer

What stands in the cache under a key is what was stored under it last: nothing has replaced or removed
it since, and it expires when that store has said (`MemoryCache.LastStored`). A value that is too
large takes the earlier one away and leaves none. So a lookup that answers, answers the last store,
whichever way the clock has gone (`MemoryCache.answers_last_store`).
-/

namespace CodeGraph.Cache

namespace MemoryCall

variable {V : Type}

/-- Whether a call offers a value for a key. -/
def offers (key : String) : MemoryCall V → Bool
  | .set k _ _ => k == key
  | .setWithTtl offer => offer.key == key
  | .get _ | .contains _ | .remove _ | .purgeExpired | .clear => false

theorem offers_offer {call : MemoryCall V} {configured : Option UInt64} {o : Offer V} {key : String}
    (ho : call.offer? configured = some o) : call.offers key ↔ o.key = key := by
  cases call <;> cases ho <;> exact beq_iff_eq

theorem touches_of_offers {call : MemoryCall V} {key : String} (h : call.offers key) :
    call.touches key := by
  cases call with
  | set _ _ _ => exact h
  | setWithTtl _ => exact h
  | get _ => cases h
  | contains _ => cases h
  | remove _ => cases h
  | purgeExpired => cases h
  | clear => cases h

end MemoryCall

namespace MemoryEvent

variable {V : Type} {h : List (MemoryEvent V)} {key : String} {ev : MemoryEvent V}

/-- The last event that has replaced or removed what was stored under a key. -/
def lastTouch? (key : String) (h : List (MemoryEvent V)) : Option (MemoryEvent V) :=
  h.find? fun ev => ev.call.touches key

/-- The last store under a key. -/
def lastOffer? (key : String) (h : List (MemoryEvent V)) : Option (MemoryEvent V) :=
  h.find? fun ev => ev.call.offers key

theorem lastTouch?_of_touches (htouches : ev.call.touches key) :
    lastTouch? key (ev :: h) = some ev :=
  List.find?_cons_of_pos htouches

theorem lastTouch?_of_not_touches (htouches : ¬ ev.call.touches key) :
    lastTouch? key (ev :: h) = lastTouch? key h :=
  List.find?_cons_of_neg htouches

/-- A store that nothing has touched since is the last one. -/
theorem lastOffer?_of_lastTouch? (hlast : lastTouch? key h = some ev)
    (hoffers : ev.call.offers key) : lastOffer? key h = some ev := by
  obtain ⟨-, newer, older, rfl, hnewer⟩ := List.find?_eq_some_iff_append.1 hlast
  refine List.find?_eq_some_iff_append.2 ⟨hoffers, newer, older, rfl, ?_⟩
  intro x hx
  have hx := hnewer x hx
  rw [Bool.not_eq_true'] at hx ⊢
  rw [Bool.eq_false_iff] at hx ⊢
  exact fun h => hx (MemoryCall.touches_of_offers h)

end MemoryEvent

namespace MemoryCache

open MemoryEvent (lastTouch? lastOffer? lastTouch?_of_touches lastTouch?_of_not_touches)

variable {V : Type} {settings : MemorySettings} {c c' : MemoryCache V}
  {h : List (MemoryEvent V)} {now : UInt64} {call : MemoryCall V} {ev : MemoryEvent V}

/-- An entry is the one of the last event that has touched its key, which has stored it. -/
structure LastStored (configured : Option UInt64) (h : List (MemoryEvent V)) (e : MemoryEntry V)
    (ev : MemoryEvent V) (o : Offer V) : Prop where
  last : lastTouch? e.key h = some ev
  offer : ev.call.offer? configured = some o
  stored : ev.answer = .stored true
  expiry : expiryOf? ev.time o.ttl = some e.expiresAt
  entry : e = o.entry e.expiresAt

theorem LastStored.cons {configured : Option UInt64} {e : MemoryEntry V} {before : MemoryEvent V}
    {o : Offer V} (he : LastStored configured h e before o) (htouches : ¬ ev.call.touches e.key) :
    LastStored configured (ev :: h) e before o :=
  ⟨(lastTouch?_of_not_touches htouches).trans he.last, he.offer, he.stored, he.expiry, he.entry⟩

/-- A call keeps the entries those of the last stores. -/
theorem Performed.lastStored (hstep : Performed c c' ev)
    (hold : ∀ e ∈ c.entries, ∃ before o, LastStored c.ttl h e before o) :
    ∀ e ∈ c'.entries, ∃ before o, LastStored c.ttl (ev :: h) e before o := by
  intro e he
  cases hstep with
  | @accepted o expiresAt ho hanswer _ hexpiry hkept _ =>
    rcases List.mem_cons.1 (hkept.beginning.subset he) with rfl | hmem
    · have htouches : ev.call.touches (o.entry expiresAt).key := (touches_offer ho).2 rfl
      exact ⟨ev, o, lastTouch?_of_touches htouches, ho, hanswer, hexpiry, rfl⟩
    · obtain ⟨hmem, hkey⟩ := List.mem_filter.1 hmem
      obtain ⟨before, o', hbefore⟩ := hold e hmem
      have htouches : ¬ ev.call.touches e.key := by
        rw [touches_offer ho]
        exact fun hsame => bne_iff_ne.1 hkey hsame.symm
      exact ⟨before, o', hbefore.cons htouches⟩
  | @hit used hcall _ hentry hentries _ =>
    have hmem : e ∈ c.entries := by
      rw [hentries] at he
      rcases List.mem_cons.1 he with rfl | he
      · exact (mem_of_find hentry).1
      · exact (List.mem_filter.1 he).1
    obtain ⟨before, o, hbefore⟩ := hold e hmem
    have htouches : ¬ ev.call.touches e.key := by
      rw [hcall]
      exact Bool.false_ne_true
    exact ⟨before, o, hbefore.cons htouches⟩
  | dropped _ _ hsub hgone _ =>
    obtain ⟨before, o, hbefore⟩ := hold e (hsub.subset he)
    exact ⟨before, o, hbefore.cons fun htouches => hgone e.key htouches e he rfl⟩

theorem lastStored_of_reaches (hreach : Reaches (new settings) h c) :
    ∀ e ∈ c.entries, ∃ ev o, LastStored settings.ttl h e ev o := by
  induction hreach with
  | start =>
    intro e he
    cases he
  | @call h c c' _ _ _ hreach hrun ih =>
    have hc := bounded_of_reaches hreach
    have hstep := performed_of_perform hc.consistent hrun
    rw [← hc.ttl] at ih ⊢
    exact hstep.lastStored ih

/-- A lookup answers an entry whose time has not come. -/
theorem get_eq_some_iff {key : String} {v : V} :
    (c.get now key).1 = some v ↔
      ∃ e, c.entry? key = some e ∧ e.isExpired now = false ∧ e.value = v := by
  rcases hentry : c.entry? key with _ | e
  · simp [get, hentry]
  · rcases hexpired : e.isExpired now with _ | _
    · simp [get, hentry, hexpired]
    · simp [get, hentry, hexpired]

theorem contains_eq_isSome (c : MemoryCache V) (now : UInt64) (key : String) :
    c.contains now key = (c.get now key).1.isSome := by
  rcases hentry : c.entry? key with _ | e
  · simp [get, contains, hentry]
  · rcases hexpired : e.isExpired now with _ | _
    · simp [get, contains, hentry, hexpired]
    · simp [get, contains, hentry, hexpired]

/-- An entry that has not expired was stored less than its time to live ago. -/
theorem lt_of_not_expired {e : MemoryEntry V} {stored : UInt64} {ttl : Option UInt64}
    (hexpiry : expiryOf? stored ttl = some e.expiresAt) (halive : e.isExpired now = false)
    {d : UInt64} (hd : ttl = some d) : now.toNat < stored.toNat + d.toNat := by
  subst hd
  obtain ⟨at', hsum, hat⟩ := Option.map_eq_some_iff.1 hexpiry
  rw [MemoryEntry.isExpired, ← hat, Option.any_some, decide_eq_false_iff_not, UInt64.not_le,
    UInt64.lt_iff_toNat_lt, Amount.sum?_eq_some_iff.1 hsum] at halive
  exact halive

/-- In every run, a store is refused exactly if the value alone is larger than the whole cache. -/
theorem stored_false_iff (hreach : Reaches (new settings) h c) {o : Offer V} {kept : Bool}
    (hoffer : call.offer? settings.ttl = some o)
    (hrun : c.perform now call = some (.stored kept, c')) :
    kept = false ↔ settings.maxSize < o.size := by
  have hc := bounded_of_reaches hreach
  rw [perform_offer (hc.ttl ▸ hoffer)] at hrun
  obtain ⟨⟨kept', c''⟩, hput, heq⟩ := Option.map_eq_some_iff.1 hrun
  cases heq
  obtain ⟨expiresAt, -, hput⟩ := Option.bind_eq_some_iff.1 hput
  rw [← hc.maxSize]
  rcases put_cases hc.consistent hput with ⟨rfl, hlarge, -⟩ | ⟨rfl, hfits, -⟩
  · exact iff_of_true rfl hlarge
  · exact iff_of_false Bool.noConfusion (UInt64.not_lt.2 hfits)

/-- **A lookup that answers, answers the last store.** That store was accepted, nothing has replaced
or removed its value since, and its time to live has not passed. While the last store under a key is
one that was refused, which happens exactly to a value larger than the whole cache, the key has no
answer. Asking whether a key is there tells whether a lookup would answer it, and changes nothing. -/
theorem answers_last_store (hreach : Reaches (new settings) h c) (now : UInt64) (key : String) :
    (∀ v, (c.get now key).1 = some v → ∃ ev o, lastTouch? key h = some ev ∧
      lastOffer? key h = some ev ∧ ev.call.offer? settings.ttl = some o ∧
      o.key = key ∧ o.value = v ∧ ev.answer = .stored true ∧
      ∀ d, o.ttl = some d → now.toNat < ev.time.toNat + d.toNat) ∧
      (∀ ev, lastOffer? key h = some ev → ev.answer = .stored false → (c.get now key).1 = none) ∧
      (∀ call o kept c', call.offer? settings.ttl = some o →
        c.perform now call = some (.stored kept, c') → (kept = false ↔ settings.maxSize < o.size)) ∧
      c.perform now (.contains key) = some (.present (c.get now key).1.isSome, c) := by
  have hanswer : ∀ v, (c.get now key).1 = some v → ∃ ev o, lastTouch? key h = some ev ∧
      lastOffer? key h = some ev ∧ ev.call.offer? settings.ttl = some o ∧
      o.key = key ∧ o.value = v ∧ ev.answer = .stored true ∧
      ∀ d, o.ttl = some d → now.toNat < ev.time.toNat + d.toNat := by
    intro v hv
    obtain ⟨e, hentry, halive, rfl⟩ := get_eq_some_iff.1 hv
    obtain ⟨hmem, rfl⟩ := mem_of_find hentry
    obtain ⟨ev, o, hlast⟩ := lastStored_of_reaches hreach e hmem
    have hkey : o.key = e.key := by rw [hlast.entry, Offer.entry]
    have hvalue : o.value = e.value := by rw [hlast.entry, Offer.entry]
    have hoffers : ev.call.offers e.key := (MemoryCall.offers_offer hlast.offer).2 hkey
    exact ⟨ev, o, hlast.last, MemoryEvent.lastOffer?_of_lastTouch? hlast.last hoffers, hlast.offer,
      hkey, hvalue, hlast.stored, fun d hd => lt_of_not_expired hlast.expiry halive hd⟩
  refine ⟨hanswer, ?_, ?_, ?_⟩
  · intro ev hlast hrefused
    rcases hget : (c.get now key).1 with _ | v
    · rfl
    · obtain ⟨ev', o, -, hlast', -, -, -, hstored, -⟩ := hanswer v hget
      cases hlast.symm.trans hlast'
      cases hrefused.symm.trans hstored
  · intro call o kept c' hoffer hrun
    exact stored_false_iff hreach hoffer hrun
  · rw [perform, contains_eq_isSome]

/-- A value that lives for five milliseconds is answered when the clock has gone back, and not when
its time has come; a larger one that is refused takes another key's value away. -/
theorem answers_last_store_refused : ∃ (h : List (MemoryEvent Nat)) (c : MemoryCache Nat),
    Reaches (new ⟨10, 2, none⟩) h c ∧ (c.get 7 "a").1 = some 1 ∧
      (∃ ev, lastTouch? "a" h = some ev ∧ ev.time = 3 ∧ ev.answer = .stored true) ∧
      (c.get 8 "a").1 = none ∧ (c.get 7 "b").1 = none ∧
      c.perform 7 (.contains "a") = some (.present true, c) := by
  have hone := Reaches.start.call
    (show (new ⟨10, 2, none⟩ : MemoryCache Nat).perform 9 (.set "b" 2 4) = some (_, _) from rfl)
  have htwo := hone.call
    (show perform _ 3 (.setWithTtl ⟨"a", 1, 4, some 5⟩) = some (_, _) from rfl)
  have hrefused := htwo.call (show perform _ 4 (.set "b" 3 11) = some (_, _) from rfl)
  obtain ⟨hanswer, -, -, hpresent⟩ := answers_last_store hrefused 7 "a"
  obtain ⟨ev, o, hlast, -, -, -, -, hstored, -⟩ := hanswer 1 rfl
  obtain ⟨-, hmissing, -, -⟩ := answers_last_store hrefused 7 "b"
  refine ⟨_, _, hrefused, rfl, ⟨ev, hlast, ?_, hstored⟩, rfl, hmissing _ rfl rfl, hpresent⟩
  cases hlast
  rfl

end MemoryCache

end CodeGraph.Cache
