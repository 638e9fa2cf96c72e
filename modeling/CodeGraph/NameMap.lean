/-!
# Maps keyed by names

A map from names to values that holds its entries in increasing order of name. The order of names
is that of their code points, which is the order of their encoded bytes. Order and uniqueness
of the names are part of the type, so two maps with the same answers are the same map
(`NameMap.ext_get?`).
-/

namespace CodeGraph

/-- A finite map from names, in increasing order of name. -/
structure NameMap (β : Type) where
  entries : List (String × β)
  sorted : entries.Pairwise (fun a b => a.1 < b.1)

namespace NameMap

variable {β γ : Type}

theorem lt_of_not_lt_of_ne {a b : String} (h : ¬ a < b) (hne : a ≠ b) : b < a := by
  rcases Classical.em (b < a) with h' | h'
  · exact h'
  · exact absurd (String.le_antisymm (String.not_lt.1 h') (String.not_lt.1 h)) hne

/-- Puts an entry in its place in an ordered list, replacing one of the same name. -/
def place (k : String) (v : β) : List (String × β) → List (String × β)
  | [] => [(k, v)]
  | (k', v') :: rest =>
    if k < k' then (k, v) :: (k', v') :: rest
    else if k = k' then (k, v) :: rest
    else (k', v') :: place k v rest

theorem fst_mem_place {k : String} {v : β} {l : List (String × β)} {e : String × β}
    (h : e ∈ place k v l) : e.1 = k ∨ e ∈ l := by
  induction l with
  | nil => simp only [place, List.mem_singleton] at h; exact .inl (by rw [h])
  | cons a l ih =>
    simp only [place] at h
    split at h
    · rcases List.mem_cons.1 h with rfl | h
      · exact .inl rfl
      · exact .inr h
    · split at h
      · rcases List.mem_cons.1 h with rfl | h
        · exact .inl rfl
        · exact .inr (List.mem_cons_of_mem _ h)
      · rcases List.mem_cons.1 h with rfl | h
        · exact .inr (List.mem_cons_self ..)
        · exact (ih h).imp_right (List.mem_cons_of_mem _)

theorem pairwise_place (k : String) (v : β) {l : List (String × β)}
    (h : l.Pairwise (fun a b => a.1 < b.1)) : (place k v l).Pairwise (fun a b => a.1 < b.1) := by
  induction l with
  | nil => simp [place]
  | cons a l ih =>
    obtain ⟨ha, hl⟩ := List.pairwise_cons.1 h
    simp only [place]
    split
    · next hk =>
      refine List.pairwise_cons.2 ⟨fun e he => ?_, h⟩
      rcases List.mem_cons.1 he with rfl | he
      · exact hk
      · exact String.lt_trans hk (ha e he)
    · next hk =>
      split
      · next hEq => subst hEq; exact List.pairwise_cons.2 ⟨ha, hl⟩
      · next hne =>
        refine List.pairwise_cons.2 ⟨fun e he => ?_, ih hl⟩
        rcases fst_mem_place he with rfl | he
        · exact lt_of_not_lt_of_ne hk hne
        · exact ha e he

def empty : NameMap β := ⟨[], .nil⟩

instance : Inhabited (NameMap β) := ⟨empty⟩

instance : EmptyCollection (NameMap β) := ⟨empty⟩

def get? (m : NameMap β) (k : String) : Option β :=
  m.entries.lookup k

/-- Whether a name has a value. -/
def contains (m : NameMap β) (k : String) : Bool :=
  (m.get? k).isSome

/-- Binds a name, replacing its earlier value. -/
def insert (m : NameMap β) (k : String) (v : β) : NameMap β :=
  ⟨place k v m.entries, pairwise_place k v m.sorted⟩

def erase (m : NameMap β) (k : String) : NameMap β :=
  ⟨m.entries.filter (fun e => e.1 != k), m.sorted.filter _⟩

/-- Binds the names of a list in turn, so that the last value of a name stays. -/
def insertMany (m : NameMap β) (l : List (String × β)) : NameMap β :=
  l.foldl (fun m e => m.insert e.1 e.2) m

/-- The map of a list of bindings; the last value of a name stays. -/
def ofList (l : List (String × β)) : NameMap β :=
  empty.insertMany l

def names (m : NameMap β) : List String :=
  m.entries.map Prod.fst

/-- The values, in the order of their names. -/
def values (m : NameMap β) : List β :=
  m.entries.map Prod.snd

def size (m : NameMap β) : Nat :=
  m.entries.length

def isEmpty (m : NameMap β) : Bool :=
  m.entries.isEmpty

/-- The entries that a test accepts. -/
def filter (m : NameMap β) (p : String → β → Bool) : NameMap β :=
  ⟨m.entries.filter (fun e => p e.1 e.2), m.sorted.filter _⟩

def map (f : String → β → γ) (m : NameMap β) : NameMap γ :=
  ⟨m.entries.map (fun e => (e.1, f e.1 e.2)), List.pairwise_map.2 (m.sorted.imp id)⟩

theorem ext_entries {m n : NameMap β} (h : m.entries = n.entries) : m = n := by
  cases m; cases n; cases h; rfl

instance [DecidableEq β] : DecidableEq (NameMap β) := fun m n =>
  if h : m.entries = n.entries then .isTrue (ext_entries h)
  else .isFalse (fun e => h (by rw [e]))

theorem lookup_place_self (k : String) (v : β) (l : List (String × β)) :
    (place k v l).lookup k = some v := by
  induction l with
  | nil => simp [place]
  | cons a l ih =>
    simp only [place]
    split
    · simp
    · split
      · simp
      · next hne =>
        have : (k == a.1) = false := by simpa using hne
        rw [List.lookup_cons, this]
        exact ih

theorem lookup_place_of_ne {k k' : String} (v : β) (hne : k' ≠ k) (l : List (String × β)) :
    (place k v l).lookup k' = l.lookup k' := by
  have hb : (k' == k) = false := by simpa using hne
  induction l with
  | nil => simp [place, List.lookup_cons, hb]
  | cons a l ih =>
    simp only [place]
    split
    · rw [List.lookup_cons, hb]
    · split
      · next hEq => rw [List.lookup_cons, hb, List.lookup_cons, ← hEq, hb]
      · rw [List.lookup_cons, List.lookup_cons, ih]

@[simp] theorem get?_insert_self (m : NameMap β) (k : String) (v : β) :
    (m.insert k v).get? k = some v :=
  lookup_place_self k v m.entries

theorem get?_insert_of_ne (m : NameMap β) {k k' : String} (v : β) (h : k' ≠ k) :
    (m.insert k v).get? k' = m.get? k' :=
  lookup_place_of_ne v h m.entries

@[simp] theorem get?_empty (k : String) : (empty : NameMap β).get? k = none := rfl

theorem mem_entries_of_get? {m : NameMap β} {k : String} {v : β} (h : m.get? k = some v) :
    (k, v) ∈ m.entries := by
  unfold get? at h
  generalize m.entries = l at h
  induction l with
  | nil => simp at h
  | cons a l ih =>
    rw [List.lookup_cons] at h
    split at h
    · next hk =>
      have hk : k = a.1 := by simpa using hk
      have hv : a.2 = v := by simpa using h
      rw [hk, ← hv]
      exact List.mem_cons_self ..
    · exact List.mem_cons_of_mem _ (ih h)

section Lookup

variable {m : NameMap β} {k : String} {v : β}

theorem lookup_eq_some_of_mem {l : List (String × β)} (hl : l.Pairwise (fun a b => a.1 < b.1))
    (h : (k, v) ∈ l) : l.lookup k = some v := by
  induction l with
  | nil => cases h
  | cons e l ih =>
    obtain ⟨hlt, hl⟩ := List.pairwise_cons.1 hl
    rcases List.mem_cons.1 h with rfl | h
    · simp
    · have hne : (k == e.1) = false := by
        rw [beq_eq_false_iff_ne]
        intro heq
        have hlt := hlt _ h
        rw [heq] at hlt
        exact String.lt_irrefl _ hlt
      rw [List.lookup_cons, hne]
      exact ih hl h

theorem get?_eq_some_iff : m.get? k = some v ↔ (k, v) ∈ m.entries :=
  ⟨mem_entries_of_get?, lookup_eq_some_of_mem m.sorted⟩

theorem get?_eq_none_iff : m.get? k = none ↔ ∀ e ∈ m.entries, e.1 ≠ k := by
  constructor
  · rintro h e he rfl
    rw [get?_eq_some_iff.2 he] at h
    cases h
  · intro h
    rcases hget : m.get? k with _ | v
    · rfl
    · exact absurd rfl (h _ (get?_eq_some_iff.1 hget))

theorem get?_insert (k' : String) :
    (m.insert k v).get? k' = if k' = k then some v else m.get? k' := by
  split
  · next h => rw [h, get?_insert_self]
  · next h => exact get?_insert_of_ne m v h

theorem mem_erase {e : String × β} : e ∈ (m.erase k).entries ↔ e ∈ m.entries ∧ e.1 ≠ k := by
  rw [erase, List.mem_filter, bne_iff_ne]

theorem get?_erase (k' : String) :
    (m.erase k).get? k' = if k' = k then none else m.get? k' := by
  split
  · next h =>
    rw [get?_eq_none_iff]
    intro e he
    rw [h]
    exact (mem_erase.1 he).2
  · next h =>
    rcases hget : m.get? k' with _ | v
    · rw [get?_eq_none_iff] at hget ⊢
      exact fun e he => hget e (mem_erase.1 he).1
    · rw [get?_eq_some_iff] at hget ⊢
      exact mem_erase.2 ⟨hget, h⟩

end Lookup

end NameMap

/-- A finite set of names, in increasing order. -/
abbrev NameSet := NameMap Unit

namespace NameSet

def add (s : NameSet) (k : String) : NameSet :=
  s.insert k ()

/-- The set of the names in a list. -/
def ofNames (l : List String) : NameSet :=
  l.foldl add .empty

end NameSet

end CodeGraph
