import CodeGraph.NameMap

/-!
# Ages of entries

The age of an entry is the time when it was written and its digest, which tells entries of one time
apart. A set of ages holds them in order, so the oldest one comes first; order and uniqueness are part
of the type.
-/

namespace CodeGraph.Cache

/-- When an entry was written, and which one it is. -/
structure Age where
  /-- In milliseconds. -/
  timestamp : UInt64
  digest : String
  deriving DecidableEq, Repr, Inhabited

namespace Age

/-- Of two entries the older one was written earlier or, at one time, has the lesser digest. -/
def Older (a b : Age) : Prop :=
  a.timestamp < b.timestamp ∨ a.timestamp = b.timestamp ∧ a.digest < b.digest

instance : DecidableRel Older := fun a b =>
  inferInstanceAs (Decidable (a.timestamp < b.timestamp ∨
    a.timestamp = b.timestamp ∧ a.digest < b.digest))

variable {a b c : Age}

theorem not_older_self (a : Age) : ¬ a.Older a := by
  rintro (h | ⟨-, h⟩)
  · exact UInt64.lt_irrefl _ h
  · exact String.lt_irrefl _ h

theorem Older.trans (h : a.Older b) (h' : b.Older c) : a.Older c := by
  rcases h with h | ⟨heq, h⟩
  · rcases h' with h' | ⟨heq', -⟩
    · exact .inl (UInt64.lt_trans h h')
    · exact .inl (heq' ▸ h)
  · rcases h' with h' | ⟨heq', h'⟩
    · exact .inl (heq ▸ h')
    · exact .inr ⟨heq.trans heq', String.lt_trans h h'⟩

theorem older_of_not_older (h : ¬ a.Older b) (hne : a ≠ b) : b.Older a := by
  by_cases htime : a.timestamp = b.timestamp
  · refine .inr ⟨htime.symm, NameMap.lt_of_not_lt_of_ne (fun hlt => h (.inr ⟨htime, hlt⟩)) ?_⟩
    intro hdigest
    cases a
    cases b
    cases htime
    cases hdigest
    exact hne rfl
  · refine .inl (UInt64.lt_of_le_of_ne (UInt64.not_lt.1 fun hlt => h (.inl hlt)) ?_)
    exact fun heq => htime heq.symm

end Age

/-- A finite set of ages, the oldest first. -/
structure AgeSet where
  ages : List Age
  sorted : ages.Pairwise Age.Older

namespace AgeSet

/-- Puts an age in its place in an ordered list. -/
def place (a : Age) : List Age → List Age
  | [] => [a]
  | b :: rest =>
    if a.Older b then a :: b :: rest
    else if a = b then b :: rest
    else b :: place a rest

theorem mem_place {a b : Age} {l : List Age} : b ∈ place a l ↔ b = a ∨ b ∈ l := by
  induction l with
  | nil => simp [place]
  | cons c l ih =>
    simp only [place]
    split
    · simp
    · split
      · next heq => simp [heq]
      · simp [ih, or_left_comm]

theorem pairwise_place (a : Age) {l : List Age} (h : l.Pairwise Age.Older) :
    (place a l).Pairwise Age.Older := by
  induction l with
  | nil => simp [place]
  | cons b l ih =>
    obtain ⟨hb, hl⟩ := List.pairwise_cons.1 h
    simp only [place]
    split
    · next hab =>
      refine List.pairwise_cons.2 ⟨fun c hc => ?_, h⟩
      rcases List.mem_cons.1 hc with rfl | hc
      · exact hab
      · exact hab.trans (hb c hc)
    · next hab =>
      split
      · exact h
      · next hne =>
        refine List.pairwise_cons.2 ⟨fun c hc => ?_, ih hl⟩
        rcases mem_place.1 hc with rfl | hc
        · exact Age.older_of_not_older hab hne
        · exact hb c hc

def empty : AgeSet := ⟨[], .nil⟩

instance : Inhabited AgeSet := ⟨empty⟩

instance : DecidableEq AgeSet := fun s t =>
  if h : s.ages = t.ages then .isTrue (by cases s; cases t; cases h; rfl)
  else .isFalse fun heq => h (heq ▸ rfl)

/-- The oldest one. -/
def first? (s : AgeSet) : Option Age :=
  s.ages.head?

def insert (s : AgeSet) (a : Age) : AgeSet :=
  ⟨place a s.ages, pairwise_place a s.sorted⟩

def erase (s : AgeSet) (a : Age) : AgeSet :=
  ⟨s.ages.filter (· != a), s.sorted.filter _⟩

variable {s : AgeSet} {a b : Age}

@[simp] theorem mem_insert : b ∈ (s.insert a).ages ↔ b = a ∨ b ∈ s.ages :=
  mem_place

@[simp] theorem mem_erase : b ∈ (s.erase a).ages ↔ b ∈ s.ages ∧ b ≠ a := by
  rw [erase, List.mem_filter, bne_iff_ne]

theorem mem_of_first? (h : s.first? = some a) : a ∈ s.ages :=
  List.mem_of_mem_head? h

end AgeSet

end CodeGraph.Cache
