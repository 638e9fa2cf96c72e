import CodeGraph.Proofs.Toml.Reading

/-!
# Records read from tables

A record is read from a table by the names of its fields, or from an array by their positions. So
what is read into a part of a record is what the value has for the field of that part
(`Record.HasField.given`), and without it the part is as it was in the record to start from.
-/

namespace CodeGraph

open Json (Decoded Outline Members Elements Field Record Origin bind_eq_ok map_eq_ok mapError_eq_ok)
open Toml (Unbroken ReadsTables)

/-- What is bound is read as a value, and without it the value is the default. -/
def Toml.Given {β : Type} (read : Origin → Outline → Decoded β) (default : β) :
    Option Toml → β → Prop
  | some v, x => read .table v.outline = .ok x
  | none, x => x = default

namespace Json

variable {α β : Type} {name : String} {read : Origin → Outline → Decoded β} {set : β → α → α}
  {get : α → β}

/-! ## Fields -/

/-- Reading a field leaves a part of the record as it was. -/
def Field.Leaves (get : α → β) (f : Field α) : Prop :=
  ∀ o v a a', f.read o v a = .ok a' → get a' = get a

@[simp] theorem Field.name_defaulted : (Field.defaulted name read set).name = name := rfl

@[simp] theorem Field.leaves_defaulted {γ : Type} {read : Origin → Outline → Decoded γ}
    {set : γ → α → α} (h : ∀ x a, get (set x a) = get a) :
    (Field.defaulted name read set).Leaves get := by
  intro o v a a' hread
  obtain ⟨x, -, rfl⟩ := map_eq_ok.1 hread
  exact h x a

/-- A field is read into a part of the record that no other field touches. -/
structure Record.HasField (r : Record α) (s : Toml.Step) (read : Origin → Outline → Decoded β)
    (get : α → β) : Prop where
  among : ∃ front f back, r.fields = front ++ f :: back ∧ s.position = some front.length ∧
    f.name = s.name ∧ f.required = false ∧
    (∀ o v a a', f.read o v a = .ok a' → read o v = .ok (get a')) ∧
    ∀ g ∈ front ++ back, g.name ≠ s.name ∧ g.Leaves get

namespace Record

variable {r : Record α} {s : Toml.Step}

theorem HasField.of_defaulted (front back : List (Field α))
    (hfields : r.fields = front ++ .defaulted name read set :: back)
    (hget : ∀ x a, get (set x a) = x)
    (hothers : ∀ g ∈ front ++ back, g.name ≠ name ∧ g.Leaves get) :
    r.HasField ⟨name, some front.length⟩ read get := by
  refine ⟨front, _, back, hfields, rfl, rfl, rfl, ?_, hothers⟩
  intro o v a a' hread
  obtain ⟨x, hx, rfl⟩ := map_eq_ok.1 hread
  rw [hx, hget]

/-- A member that is read is the field itself, or leaves its part as it was. -/
theorem HasField.read_member (h : r.HasField s read get) {f : Field α} (hf : f ∈ r.fields) :
    f.name = s.name ∧ (∀ o v a a', f.read o v a = .ok a' → read o v = .ok (get a')) ∨
      f.name ≠ s.name ∧ f.Leaves get := by
  obtain ⟨front, f', back, hfields, -, hname, -, hread, hothers⟩ := h.among
  rw [hfields, List.mem_append, List.mem_cons] at hf
  rcases hf with hf | rfl | hf
  · exact .inr (hothers f (List.mem_append_left _ hf))
  · exact .inl ⟨hname, hread⟩
  · exact .inr (hothers f (List.mem_append_right _ hf))

/-- The members of a table are read into a part of the record as the table binds its name. -/
theorem HasField.given_members (h : r.HasField s read get)
    {other : String → Outline → α → Decoded α} (hother : ∀ k v a b, other k v a = .ok b → b = a)
    {t : Toml.Table} {seen : List String} {a : α} {result : List String × α}
    (hread : r.readMembers .table other seen a (Toml.outlineEntries t) = .ok result) :
    (s.name ∈ seen → get result.2 = get a) ∧
      (s.name ∉ seen → Toml.Given read (get a) (t.lookup s.name) (get result.2)) := by
  induction t generalizing seen a with
  | nil =>
    cases hread
    exact ⟨fun _ => rfl, fun _ => rfl⟩
  | cons e t ih =>
    obtain ⟨k, v⟩ := e
    obtain ⟨k', hk, ⟨f, hf, rfl, hseen, b, hb, hrest⟩ | ⟨hnone, b, hb, hrest⟩⟩ :=
      readMembers_cons_eq_ok hread
    · obtain rfl : k = f.name := Except.ok.inj hk
      obtain ⟨hin, hout⟩ := ih hrest
      rw [List.lookup_cons]
      rcases h.read_member hf with ⟨hname, hvalue⟩ | ⟨hname, hleaves⟩
      · rw [← hname, beq_self_eq_true]
        refine ⟨fun hmem => absurd hmem hseen, fun _ => ?_⟩
        rw [← hname] at hin
        exact (hvalue _ _ _ _ hb).trans (congrArg Except.ok (hin List.mem_cons_self).symm)
      · rw [beq_eq_false_iff_ne.2 hname.symm]
        have hsame := hleaves _ _ _ _ hb
        refine ⟨fun hmem => (hin (List.mem_cons_of_mem _ hmem)).trans hsame, fun hmem => ?_⟩
        rw [← hsame]
        exact hout fun hmem' => (List.mem_cons.1 hmem').elim (fun heq => hname heq.symm) hmem
    · obtain rfl : k = k' := Except.ok.inj hk
      obtain rfl := hother _ _ _ _ hb
      obtain ⟨hin, hout⟩ := ih hrest
      have hname : s.name ≠ k := by
        obtain ⟨front, f, back, hfields, -, hname, -⟩ := h.among
        rw [← hname]
        exact hnone f (by simp [hfields])
      rw [List.lookup_cons, beq_eq_false_iff_ne.2 hname]
      exact ⟨hin, hout⟩

theorem get_readPositions {fields : List (Field α)} (h : ∀ g ∈ fields, g.Leaves get)
    {items : List Toml} {n : Nat} {a b : α}
    (hread : r.readPositions .table n a fields (Toml.outlineItems items) = .ok b) :
    get b = get a := by
  induction fields generalizing items n a with
  | nil =>
    obtain ⟨_, -, hread⟩ := bind_eq_ok.1 hread
    cases hread
    rfl
  | cons f fields ih =>
    obtain ⟨hf, hfields⟩ := List.forall_mem_cons.1 h
    cases items with
    | nil =>
      rw [Toml.outlineItems, readPositions] at hread
      split at hread
      · cases hread
      · have hnil : r.readPositions .table _ a fields (Toml.outlineItems []) = .ok b := hread
        exact ih hfields hnil
    | cons v items =>
      obtain ⟨a', ha', hread⟩ := bind_eq_ok.1 hread
      exact (ih hfields hread).trans (hf _ _ _ _ ha')

/-- The items of an array are read into a part of the record as one stands at its position. -/
theorem given_positions {front back : List (Field α)} {f : Field α}
    (hf : ∀ o v a a', f.read o v a = .ok a' → read o v = .ok (get a'))
    (hothers : ∀ g ∈ front ++ back, g.Leaves get) {items : List Toml} {n : Nat} {a b : α}
    (hread : r.readPositions .table n a (front ++ f :: back) (Toml.outlineItems items) = .ok b) :
    Toml.Given read (get a) items[front.length]? (get b) := by
  induction front generalizing items n a with
  | nil =>
    cases items with
    | nil =>
      rw [List.nil_append, Toml.outlineItems, readPositions] at hread
      split at hread
      · cases hread
      · have hnil : r.readPositions .table _ a back (Toml.outlineItems []) = .ok b := hread
        exact get_readPositions hothers hnil
    | cons v items =>
      obtain ⟨a', ha', hread⟩ := bind_eq_ok.1 hread
      exact (hf _ _ _ _ ha').trans (congrArg Except.ok (get_readPositions hothers hread).symm)
  | cons g front ih =>
    obtain ⟨hg, hothers⟩ := List.forall_mem_cons.1 hothers
    cases items with
    | nil =>
      rw [List.cons_append, Toml.outlineItems, readPositions] at hread
      split at hread
      · cases hread
      · have hnil : r.readPositions .table _ a (front ++ f :: back) (Toml.outlineItems []) = .ok b :=
          hread
        exact ih hothers hnil
    | cons v items =>
      obtain ⟨a', ha', hread⟩ := bind_eq_ok.1 hread
      rw [← hg _ _ _ _ ha']
      exact ih hothers hread

/-- **What is read into a part of a record** is what the value has for its field. -/
theorem HasField.given (h : r.HasField s read get) {v : Toml} {a : α}
    (ha : r.read .table v.outline = .ok a) :
    Toml.Given read (get r.start) (v.field? s) (get a) := by
  cases v with
  | table t =>
    obtain ⟨_, ho, ha⟩ := bind_eq_ok.1 ha
    cases ho
    obtain ⟨⟨seen, a'⟩, hmembers, ha⟩ := bind_eq_ok.1 ha
    obtain rfl := complete_eq_ok ha
    refine (h.given_members ?_ hmembers).2 List.not_mem_nil
    intro k v a b hskip
    obtain ⟨_, -, hskip⟩ := bind_eq_ok.1 hskip
    cases hskip
    rfl
  | array items =>
    obtain ⟨_, ho, ha⟩ := bind_eq_ok.1 ha
    cases ho
    obtain ⟨front, f, back, hfields, hposition, -, -, hread, hothers⟩ := h.among
    rw [hfields] at ha
    rw [Toml.field?, hposition]
    exact given_positions hread (fun g hg => (hothers g hg).2) ha
  | _ => exact absurd ha (unexpected_ne_ok _ _ _)

/-! ## Reading does not break off -/

theorem unbroken_readMembers {other : String → Outline → α → Decoded α}
    (hfields : ∀ f ∈ r.fields, ∀ (v : Toml) a, Unbroken (f.read .table v.outline a))
    (hother : ∀ k (v : Toml) a, Unbroken (other k v.outline a)) (t : Toml.Table)
    (seen : List String) (a : α) :
    Unbroken (r.readMembers .table other seen a (Toml.outlineEntries t)) := by
  induction t generalizing seen a with
  | nil => exact .ok _
  | cons e t ih =>
    obtain ⟨k, v⟩ := e
    rw [Toml.outlineEntries, readMembers]
    split
    · next f hf =>
      split
      · exact .mismatch _
      · exact ((hfields f (List.mem_of_find?_eq_some hf) v a).within k).bind fun _ _ => ih _ _
    · exact (hother k v a).bind fun _ _ => ih _ _

theorem unbroken_readPositions {fields : List (Field α)}
    (hfields : ∀ f ∈ fields, ∀ (v : Toml) a, Unbroken (f.read .table v.outline a))
    (items : List Toml) (n : Nat) (a : α) :
    Unbroken (r.readPositions .table n a fields (Toml.outlineItems items)) := by
  induction fields generalizing items n a with
  | nil =>
    refine Unbroken.bind ?_ fun _ _ => .ok a
    cases items with
    | nil => exact .ok ()
    | cons v items => exact .mismatch _
  | cons f fields ih =>
    obtain ⟨hf, hfields⟩ := List.forall_mem_cons.1 hfields
    cases items with
    | nil =>
      rw [Toml.outlineItems, readPositions]
      split
      · exact .mismatch _
      · exact ih hfields [] _ _
    | cons v items => exact (hf v a).bind fun _ _ => ih hfields items _ _

/-- Reading a record does not break off unless reading a field does. -/
theorem readsTables_read
    (hfields : ∀ f ∈ r.fields, ∀ (v : Toml) a, Unbroken (f.read .table v.outline a)) :
    ReadsTables r.read := by
  intro v
  cases v with
  | table t =>
    refine (unbroken_readMembers hfields ?_ t [] r.start).bind fun result _ => ?_
    · exact fun k v a => (Toml.unbroken_skip v).bind fun _ _ => .ok a
    · obtain ⟨seen, a⟩ := result
      simp only [complete]
      split
      · exact .mismatch _
      · exact .ok _
  | array items => exact unbroken_readPositions hfields items 0 r.start
  | _ =>
    intro b h
    cases h

end Record

theorem Field.unbroken_defaulted (h : ReadsTables read) (v : Toml) (a : α) :
    Unbroken ((Field.defaulted name read set).read .table v.outline a) :=
  (h v).map _

end Json

end CodeGraph
