import CodeGraph.Proofs.Cache.Memory.Answers

/-!
# Lifetimes in the memory layer

How long a value is to live is a number of milliseconds without bound; what the cache keeps of it is
the 64-bit word it goes round to, and the time of expiry must be a word again. So a value lives
exactly as long as it should where the time of its expiry, told without bound, is a word
(`MemoryCache.lifetime_exact_iff`). Where only the lifetime is none, the value is stored all the
same and expires too early.
-/

namespace CodeGraph.Cache

/-- How long an entry is to live by the settings, in milliseconds and without bound. -/
def MemorySettings.lifetime (s : MemorySettings) : Option Nat :=
  s.ttlSeconds.map fun seconds => seconds.toNat * 1000

theorem MemorySettings.ttl_eq_lifetime (s : MemorySettings) :
    s.ttl = s.lifetime.map UInt64.ofNat := by
  rw [ttl, lifetime, Option.map_map]
  refine congrArg (s.ttlSeconds.map ·) (funext fun seconds => ?_)
  show seconds * 1000 = UInt64.ofNat (seconds.toNat * 1000)
  rw [UInt64.ofNat_mul, UInt64.ofNat_toNat]
  rfl

namespace MemoryCache

variable {V : Type} {settings : MemorySettings} {c c' : MemoryCache V}
  {h : List (MemoryEvent V)} {now later : UInt64} {key : String} {value : V} {size : UInt64}
  {life : Option Nat} {stored : Bool}

/-- Whether a time lies within a lifetime that begins at another. -/
def Within (start : UInt64) (life : Option Nat) (later : UInt64) : Prop :=
  ∀ d ∈ life, later.toNat < start.toNat + d

/-- A value is answered within a lifetime, and nothing is answered outside it. -/
def LivesFor (c : MemoryCache V) (key : String) (value : V) (start : UInt64) (life : Option Nat) :
    Prop :=
  ∀ later, Within start life later ∧ (c.get later key).1 = some value ∨
    ¬ Within start life later ∧ (c.get later key).1 = none

/-- Stores a value that is to live for any number of milliseconds. -/
def setFor (c : MemoryCache V) (now : UInt64) (key : String) (value : V) (size : UInt64)
    (life : Option Nat) : Option (Bool × MemoryCache V) :=
  c.setWithTtl now key value size (life.map UInt64.ofNat)

theorem set_eq_setFor (hc : Bounded settings c) (now : UInt64) (key : String) (value : V)
    (size : UInt64) : c.set now key value size = c.setFor now key value size settings.lifetime := by
  rw [set, setFor, hc.ttl, MemorySettings.ttl_eq_lifetime]

/-! ## The time of expiry -/

/-- What a lifetime goes round to. -/
def rounded (life : Option Nat) : Option Nat :=
  life.map (· % UInt64.size)

theorem expiryOf?_ofNat_eq_none_iff :
    expiryOf? now (life.map UInt64.ofNat) = none ↔
      ∃ d ∈ rounded life, UInt64.size ≤ now.toNat + d := by
  cases life with
  | none => simp [expiryOf?, rounded]
  | some d => simp [expiryOf?, rounded, Amount.sum?_eq_none_iff]

/-- An entry whose time of expiry is a word is alive for as long as its lifetime has gone round
to. -/
theorem isExpired_eq_false_iff {e : MemoryEntry V}
    (hexpiry : expiryOf? now (life.map UInt64.ofNat) = some e.expiresAt) :
    e.isExpired later = false ↔ Within now (rounded life) later := by
  cases life with
  | none =>
    have hnever : none = e.expiresAt := Option.some.inj hexpiry
    simp [MemoryEntry.isExpired, ← hnever, Within, rounded]
  | some d =>
    obtain ⟨expiresAt, hsum, hat⟩ := Option.map_eq_some_iff.1 hexpiry
    rw [MemoryEntry.isExpired, ← hat, Option.any_some, decide_eq_false_iff_not, UInt64.not_le,
      UInt64.lt_iff_toNat_lt, Amount.sum?_eq_some_iff.1 hsum]
    simp [Within, rounded]

/-! ## What a store leaves -/

/-- Storing a value that fits alone fails only if the total with it is not a word. -/
theorem put_eq_none_iff (hc : c.Consistent) {e : MemoryEntry V} (hfits : e.size ≤ c.maxSize) :
    c.put e = none ↔
      UInt64.size ≤ total (c.entries.filter fun x => x.key != e.key) + e.size.toNat := by
  obtain ⟨others, hdrop⟩ := exists_dropEntry c e.key
  have hothers := (hc.dropEntry e.key).size
  rw [entries_dropEntry] at hothers
  rw [put]
  rw [hdrop] at hothers ⊢
  rw [if_neg (UInt64.not_lt.2 hfits), Option.map_eq_none_iff, Amount.sum?_eq_none_iff, hothers]

/-- A store of a value that fits alone has no result exactly if one of its sums is not a word. -/
theorem setFor_eq_none_iff (hc : Bounded settings c) (hfits : size ≤ settings.maxSize)
    (now : UInt64) (key : String) (value : V) (life : Option Nat) :
    c.setFor now key value size life = none ↔
      (∃ d ∈ rounded life, UInt64.size ≤ now.toNat + d) ∨
        UInt64.size ≤ total (c.entries.filter fun e => e.key != key) + size.toNat := by
  rw [← expiryOf?_ofNat_eq_none_iff, setFor, setWithTtl]
  rcases hexpiry : expiryOf? now (life.map UInt64.ofNat) with _ | expiresAt
  · exact iff_of_true rfl (.inl rfl)
  · have hput := put_eq_none_iff hc.consistent (e := ⟨key, value, size, expiresAt⟩)
      (hc.maxSize ▸ hfits)
    rw [Option.bind_some, hput]
    simp

/-- An entry that stands first is answered until its time has come. -/
theorem livesFor_first {e : MemoryEntry V} {rest : List (MemoryEntry V)}
    (hfirst : c.entries = e :: rest)
    (hexpiry : expiryOf? now (life.map UInt64.ofNat) = some e.expiresAt) :
    c.LivesFor e.key e.value now (rounded life) := by
  intro later
  have hentry : c.entry? e.key = some e := by
    unfold entry?
    rw [hfirst]
    exact List.find?_cons_of_pos (beq_self_eq_true e.key)
  rw [← isExpired_eq_false_iff hexpiry]
  rcases hexpired : e.isExpired later with _ | _
  · exact .inl ⟨rfl, get_eq_some_iff.2 ⟨e, hentry, hexpired, rfl⟩⟩
  · refine .inr ⟨Bool.noConfusion, ?_⟩
    simp [get, hentry, hexpired]

/-- A value that fits alone is answered as long as its lifetime has gone round to. -/
theorem livesFor_setFor (hc : Bounded settings c) (hitems : 1 ≤ settings.maxItems)
    (hfits : size ≤ settings.maxSize)
    (hset : c.setFor now key value size life = some (stored, c')) :
    stored = true ∧ c'.LivesFor key value now (rounded life) := by
  rw [← hc.maxSize] at hfits
  rw [← hc.maxItems] at hitems
  obtain ⟨expiresAt, hexpiry, hput⟩ := Option.bind_eq_some_iff.1 hset
  rcases put_cases hc.consistent hput with ⟨-, hlarge, -⟩ | ⟨rfl, -, c₀, hc₀, htotal, rfl⟩
  · exact absurd hlarge (UInt64.not_lt.2 hfits)
  · have hkept := longest_evict htotal
    obtain ⟨total', rfl⟩ := hc₀
    have hmem := hkept.head_mem hitems hfits
    rcases List.prefix_cons_iff.1 hkept.beginning with hnone | ⟨rest, hfirst, -⟩
    · rw [hnone] at hmem
      cases hmem
    · exact ⟨rfl, livesFor_first hfirst hexpiry⟩

/-! ## Exact lifetimes -/

theorem LivesFor.within_iff {life' : Option Nat} (hlife : c.LivesFor key value now life)
    (hlife' : c.LivesFor key value now life') (later : UInt64) :
    Within now life later ↔ Within now life' later := by
  rcases hlife later with ⟨hin, hget⟩ | ⟨hout, hget⟩
  · rcases hlife' later with ⟨hin', -⟩ | ⟨-, hget'⟩
    · exact iff_of_true hin hin'
    · cases hget.symm.trans hget'
  · rcases hlife' later with ⟨-, hget'⟩ | ⟨hout', -⟩
    · cases hget.symm.trans hget'
    · exact iff_of_false hout hout'

theorem rounded_eq_self (h : ∀ d ∈ life, now.toNat + d < UInt64.size) :
    rounded life = life := by
  cases life with
  | none => rfl
  | some d =>
    have hd : now.toNat + d < UInt64.size := h d rfl
    rw [rounded, Option.map_some, Nat.mod_eq_of_lt (by omega)]

/-- A lifetime that goes round is not kept: the value is gone at the time of expiry, which is too
early. -/
theorem lt_size_of_within_iff {d : Nat} (hword : now.toNat + d % UInt64.size < UInt64.size)
    (hsame : ∀ later, Within now (some d) later ↔ Within now (some (d % UInt64.size)) later) :
    d < UInt64.size := by
  refine Nat.not_le.1 fun hlarge => ?_
  have hmod : d % UInt64.size < UInt64.size := Nat.mod_lt _ (by decide)
  have hlater : (UInt64.ofNat (now.toNat + d % UInt64.size)).toNat = now.toNat + d % UInt64.size :=
    UInt64.toNat_ofNat_of_lt hword
  have hearly : Within now (some d) (UInt64.ofNat (now.toNat + d % UInt64.size)) := by
    intro d' hd'
    cases hd'
    omega
  have habsurd := (hsame _).1 hearly _ rfl
  omega

/-- **A value lives exactly as long as it should** if and only if the time of its expiry, told
without bound, and the total with it are 64-bit words. If the total or the time of expiry, told by
what the lifetime has gone round to, is none, the store has no result; else the value is stored and
lives for what the lifetime has gone round to. -/
theorem lifetime_exact_iff (hreach : Reaches (new settings) h c) (hitems : 1 ≤ settings.maxItems)
    (hfits : size ≤ settings.maxSize) (now : UInt64) (key : String) (value : V)
    (life : Option Nat) :
    c.set now key value size = c.setFor now key value size settings.lifetime ∧
      ((∃ c', c.setFor now key value size life = some (true, c') ∧
          c'.LivesFor key value now life) ↔
        (∀ d ∈ life, now.toNat + d < UInt64.size) ∧
          total (c.entries.filter fun e => e.key != key) + size.toNat < UInt64.size) ∧
      (c.setFor now key value size life = none ↔
        (∃ d ∈ rounded life, UInt64.size ≤ now.toNat + d) ∨
          UInt64.size ≤ total (c.entries.filter fun e => e.key != key) + size.toNat) ∧
      ∀ stored c', c.setFor now key value size life = some (stored, c') →
        stored = true ∧ c'.LivesFor key value now (rounded life) := by
  have hc := bounded_of_reaches hreach
  have hnone := setFor_eq_none_iff hc hfits now key value life
  refine ⟨set_eq_setFor hc now key value size, ⟨?_, ?_⟩, hnone, ?_⟩
  · rintro ⟨c', hset, hlife⟩
    obtain ⟨-, hrounded⟩ := livesFor_setFor hc hitems hfits hset
    rw [hset] at hnone
    obtain ⟨hword, htotal⟩ := not_or.1 (hnone.not.1 (Option.some_ne_none _))
    refine ⟨?_, Nat.not_le.1 htotal⟩
    intro d hd
    cases hd
    have hword : now.toNat + d % UInt64.size < UInt64.size :=
      Nat.not_le.1 fun hle => hword ⟨_, rfl, hle⟩
    have hd := lt_size_of_within_iff hword (hlife.within_iff hrounded)
    rw [Nat.mod_eq_of_lt hd] at hword
    exact hword
  · rintro ⟨hword, htotal⟩
    have hround := rounded_eq_self hword
    rw [hround] at hnone
    rcases hset : c.setFor now key value size life with _ | ⟨stored, c'⟩
    · rcases hnone.1 hset with ⟨d, hd, hle⟩ | hle
      · exact absurd (hword d hd) (Nat.not_lt.2 hle)
      · exact absurd htotal (Nat.not_lt.2 hle)
    · obtain ⟨rfl, hlife⟩ := livesFor_setFor hc hitems hfits hset
      rw [hround] at hlife
      exact ⟨c', rfl, hlife⟩
  · intro stored c' hset
    exact livesFor_setFor hc hitems hfits hset

/-- A value stored at seven for five milliseconds is there at eleven and gone at twelve. -/
theorem lifetime_exact_five : ∃ c', (new ⟨10, 1, none⟩ : MemoryCache Nat).setFor 7 "k" 1 3 (some 5)
    = some (true, c') ∧ (c'.get 11 "k").1 = some 1 ∧ (c'.get 12 "k").1 = none := by
  have hstart : Reaches (new ⟨10, 1, none⟩) [] (new ⟨10, 1, none⟩ : MemoryCache Nat) := .start
  have hfits : (3 : UInt64) ≤ 10 := by decide
  obtain ⟨-, hexact, -, -⟩ := lifetime_exact_iff hstart (by decide) hfits 7 "k" 1 (some 5)
  obtain ⟨c', hset, hlife⟩ := hexact.2 ⟨by rintro d ⟨⟩; decide, by decide⟩
  refine ⟨c', hset, ?_, ?_⟩
  · rcases hlife 11 with ⟨-, hget⟩ | ⟨hout, -⟩
    · exact hget
    · exact absurd (by rintro d ⟨⟩; decide) hout
  · rcases hlife 12 with ⟨hin, -⟩ | ⟨-, hget⟩
    · exact absurd (hin 5 rfl) (by decide)
    · exact hget

/-- A lifetime of more than 500 million years is 384 milliseconds, and at the end of the words no
value can be stored for a second. -/
theorem lifetime_goes_round :
    (∃ c', (new ⟨10, 1, some 18446744073709552⟩ : MemoryCache Nat).set 0 "k" 1 1 =
        some (true, c') ∧ 384 < 18446744073709552 * 1000 ∧ (c'.get 384 "k").1 = none) ∧
      (new ⟨10, 1, some 1⟩ : MemoryCache Nat).set 18446744073709551615 "k" 1 1 = none :=
  ⟨⟨_, rfl, by decide, rfl⟩, rfl⟩

end MemoryCache

end CodeGraph.Cache
