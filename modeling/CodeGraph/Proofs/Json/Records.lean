import Mathlib.Data.List.Nodup
import CodeGraph.Proofs.Json.Rereading

/-!
# Records read and written

A record is read one field after the other, so a property that every field keeps holds of what is
read, be it from an object in any order or from an array (`Record.read_induction`,
`Record.readOpen_induction`).

A record is written as an object of its fields in order, with fields left out that may be. Reading
the object reads each of the fields that are there (`Record.read_written`), and of an open record the
other members after them (`Record.readOpen_written`).

The members of an object are looked up by name, the last of equal names, and so they are in its
canonical form, which has them in increasing order of name (`member?_canonical`,
`exists_canonical_object`). The fields of a record are read into places of their own
(`Record.Separate`, `Record.Independent`), so what is read of an object is read of every object with
the same members, in whatever order these stand (`Record.read_reordered`, `Record.readOpen_reordered`).
-/

namespace CodeGraph.Json

theorem unexpected_ne_ok {α : Type} (v : Outline) (expected : String) (a : α) :
    unexpected v expected ≠ .ok a := by
  intro h
  obtain ⟨_, _, h⟩ := bind_eq_ok.1 h
  cases h

theorem readOptional_some {α : Type} {read : Origin → Outline → Decoded α} {o : Origin}
    {v : Outline} {x : α} (h : read o v = .ok x) (hv : v ≠ .null) : readOptional read o v = .ok (some x) := by
  cases v with
  | null => exact absurd rfl hv
  | _ => simp [readOptional, h, Except.map]

/-! ## Lists -/

section

variable {β : Type} {read : Origin → Outline → Decoded β} {o o' : Origin}

/-- Items that are read as what they were written for. -/
theorem readList_map (ho : o.enter = .ok o') {l : List β} {enc : β → Json}
    (hl : ∀ x ∈ l, read o' (enc x).toOutline = .ok x) :
    readList read o (Json.array (l.map enc)).toOutline = .ok l := by
  have hitems : readItems (read o') (toElements (l.map enc)) = .ok l := by
    induction l with
    | nil => rfl
    | cons x l ih =>
      obtain ⟨hx, hl⟩ := List.forall_mem_cons.1 hl
      rw [List.map_cons, toElements, readItems, hx, ih hl]
      rfl
  rw [toOutline, readList, ho]
  exact hitems

@[simp] theorem readList_ofStrings (ho : o.enter = .ok o') (l : List String) :
    readList readString o (ofStrings l).toOutline = .ok l :=
  readList_map ho fun _ _ => rfl

theorem exists_read_of_readItems {read : Outline → Decoded β} (items : Elements)
    (hitems : items.IsFinite) {l : List β} (h : readItems read items = .ok l) :
    ∀ x ∈ l, ∃ v : Outline, v.IsFinite ∧ read v = .ok x := by
  cases items with
  | done =>
    cases h
    simp
  | broken => cases h
  | cons v rest =>
    rw [readItems] at h
    obtain ⟨x, hx, h⟩ := bind_eq_ok.1 h
    obtain ⟨l', hl', h⟩ := bind_eq_ok.1 h
    cases h
    exact List.forall_mem_cons.2
      ⟨⟨v, hitems.1, hx⟩, exists_read_of_readItems rest hitems.2 hl'⟩

theorem exists_read_of_readList (ho : o.enter = .ok o') {w : Outline} (hw : w.IsFinite) {l : List β}
    (h : readList read o w = .ok l) : ∀ x ∈ l, ∃ v : Outline, v.IsFinite ∧ read o' v = .ok x := by
  cases w with
  | array items =>
    obtain ⟨o₁, ho₁, h⟩ := bind_eq_ok.1 h
    obtain rfl := Except.ok.inj (ho.symm.trans ho₁)
    exact exists_read_of_readItems items hw h
  | _ => exact absurd h (unexpected_ne_ok _ _ _)

end

/-! ## Fields -/

/-- Reading a field keeps a property of the record. -/
def Field.Keeps {α : Type} (o : Origin) (P : α → Prop) (f : Field α) : Prop :=
  ∀ v a a', v.IsFinite → P a → f.read o v a = .ok a' → P a'

section

variable {α β : Type} {o : Origin} {P : α → Prop} {name : String}
  {read : Origin → Outline → Decoded β} {set : β → α → α}

theorem Field.keeps_needed
    (h : ∀ (v : Outline) x a, v.IsFinite → read o v = .ok x → P a → P (set x a)) :
    (Field.needed name read set).Keeps o P := by
  intro v a a' hv ha hread
  obtain ⟨x, hx, rfl⟩ := map_eq_ok.1 hread
  exact h v x a hv hx ha

theorem Field.keeps_defaulted
    (h : ∀ (v : Outline) x a, v.IsFinite → read o v = .ok x → P a → P (set x a)) :
    (Field.defaulted name read set).Keeps o P :=
  @Field.keeps_needed α β o P name read set h

end

namespace Record

variable {α β : Type} {r : Record α} {o o' : Origin} {other : String → Outline → α → Decoded α}
  {keep : String → Json → α → α} {P : α → Prop}

/-! ## What reading keeps -/

/-- A member that is read is a field that had not been read, or the member of no field. -/
theorem readMembers_cons_eq_ok {name : Except Flaw String} {v : Outline} {rest : Members}
    {seen : List String} {a : α} {s : List String × α}
    (h : r.readMembers o other seen a (.cons name v rest) = .ok s) :
    ∃ k, name = .ok k ∧
      ((∃ f ∈ r.fields, f.name = k ∧ k ∉ seen ∧ ∃ b, f.read o v a = .ok b ∧
          r.readMembers o other (k :: seen) b rest = .ok s) ∨
        (∀ f ∈ r.fields, f.name ≠ k) ∧ ∃ b, other k v a = .ok b ∧
          r.readMembers o other seen b rest = .ok s) := by
  rcases name with f | k
  · cases h
  rw [readMembers] at h
  refine ⟨k, rfl, ?_⟩
  split at h
  · next f hf =>
    split at h
    · cases h
    next hseen =>
    obtain ⟨b, hread, h⟩ := bind_eq_ok.1 h
    exact .inl ⟨f, List.mem_of_find?_eq_some hf, by simpa using List.find?_some hf,
      by simpa using hseen, b, mapError_eq_ok.1 hread, h⟩
  · next hnone =>
    obtain ⟨b, hread, h⟩ := bind_eq_ok.1 h
    exact .inr ⟨by simpa using List.find?_eq_none.1 hnone, b, hread, h⟩

theorem readMembers_induction
    (hfield : ∀ f ∈ r.fields, f.Keeps o P)
    (hother : ∀ k v a a', (∀ f ∈ r.fields, f.name ≠ k) → P a → other k v a = .ok a' → P a')
    (ms : Members) (hms : ms.IsFinite) {seen : List String} {a : α} (ha : P a)
    {s : List String × α} (h : r.readMembers o other seen a ms = .ok s) : P s.2 := by
  cases ms with
  | done =>
    cases h
    exact ha
  | misplaced | broken => cases h
  | cons name v rest =>
    obtain ⟨k, rfl, ⟨f, hf, -, -, a', hread, h⟩ | ⟨hk, a', hread, h⟩⟩ := readMembers_cons_eq_ok h
    · exact readMembers_induction hfield hother rest hms.2 (hfield f hf v a a' hms.1 ha hread) h
    · exact readMembers_induction hfield hother rest hms.2 (hother k v a a' hk ha hread) h

theorem readPositions_induction {fields : List (Field α)}
    (hfield : ∀ f ∈ fields, f.Keeps o P)
    {items : Elements} (hitems : items.IsFinite) {n : Nat} {a b : α} (ha : P a)
    (h : r.readPositions o n a fields items = .ok b) : P b := by
  induction fields generalizing items n a with
  | nil =>
    obtain ⟨_, -, h⟩ := bind_eq_ok.1 h
    cases h
    exact ha
  | cons f fields ih =>
    obtain ⟨hf, hfields⟩ := List.forall_mem_cons.1 hfield
    cases items with
    | broken => cases h
    | done =>
      rw [readPositions] at h
      split at h
      · cases h
      · refine ih hfields ?_ ha h
        trivial
    | cons v rest =>
      obtain ⟨a', hread, h⟩ := bind_eq_ok.1 h
      exact ih hfields hitems.2 (hf v a a' hitems.1 ha hread) h

theorem complete_eq_ok {seen : List String} {a b : α} (h : r.complete seen a = .ok b) : a = b := by
  rw [complete] at h
  split at h
  · cases h
  · exact Except.ok.inj h

/-- What reading every field keeps holds of a record that is read. -/
theorem read_induction (ho : o.enter = .ok o') (hstart : P r.start)
    (hfield : ∀ f ∈ r.fields, f.Keeps o' P)
    {w : Outline} (hw : w.IsFinite) {a : α} (h : r.read o w = .ok a) : P a := by
  cases w with
  | object ms =>
    obtain ⟨o₁, ho₁, h⟩ := bind_eq_ok.1 h
    obtain rfl := Except.ok.inj (ho.symm.trans ho₁)
    obtain ⟨⟨seen, a'⟩, hms, h⟩ := bind_eq_ok.1 h
    have ha' := readMembers_induction hfield (fun k v a a' _ ha hskip => by
      obtain ⟨_, -, hskip⟩ := bind_eq_ok.1 hskip
      cases hskip
      exact ha) ms hw hstart hms
    exact complete_eq_ok h ▸ ha'
  | array items =>
    rw [read, ho] at h
    exact readPositions_induction hfield hw hstart h
  | _ => exact absurd h (unexpected_ne_ok _ _ _)

/-- An open record keeps, besides, members of other names that are read as they are kept. -/
theorem readOpen_induction (ho : o.enter = .ok o') (hstart : P r.start)
    (hfield : ∀ f ∈ r.fields, f.Keeps o' P)
    (hkeep : ∀ k v a, (∀ f ∈ r.fields, f.name ≠ k) → readJson o' v.toOutline = .ok v → P a →
      P (keep k v a))
    {w : Outline} (hw : w.IsFinite) {a : α} (h : r.readOpen keep o w = .ok a) : P a := by
  cases w with
  | object ms =>
    obtain ⟨o₁, ho₁, h⟩ := bind_eq_ok.1 h
    obtain rfl := Except.ok.inj (ho.symm.trans ho₁)
    obtain ⟨⟨seen, a'⟩, hms, h⟩ := bind_eq_ok.1 h
    have ha' := readMembers_induction hfield (fun k v a a' hk ha hother => by
      obtain ⟨x, hx, hother⟩ := bind_eq_ok.1 hother
      cases hother
      exact hkeep k x a hk (readJson_readJson v hx) ha) ms hw hstart hms
    exact complete_eq_ok h ▸ ha'
  | _ => exact absurd h (unexpected_ne_ok _ _ _)

/-! ## Reading what was written -/

/-- The members that fields are read from, in the order of the fields, with what they make of a
record. -/
inductive Written (o : Origin) : List (Field α) → α → List (String × Json) → α → Prop
  | nil {a : α} : Written o [] a [] a
  | absent {f : Field α} {fields : List (Field α)} {a b : α} {ms : List (String × Json)} :
      f.required = false → Written o fields a ms b → Written o (f :: fields) a ms b
  | present {f : Field α} {fields : List (Field α)} {a a' b : α} {v : Json}
      {ms : List (String × Json)} : f.read o v.toOutline a = .ok a' → Written o fields a' ms b →
      Written o (f :: fields) a ((f.name, v) :: ms) b

section

variable {fields : List (Field α)} {a b : α} {ms : List (String × Json)} {name : String}
  {read : Origin → Outline → Decoded β} {set : β → α → α} {x : β} {v : Json}

theorem Written.needed (hread : read o v.toOutline = .ok x) (h : Written o fields (set x a) ms b) :
    Written o (.needed name read set :: fields) a ((name, v) :: ms) b :=
  .present (by simp [Field.needed, hread, Except.map]) h

theorem Written.defaulted (hread : read o v.toOutline = .ok x)
    (h : Written o fields (set x a) ms b) :
    Written o (.defaulted name read set :: fields) a ((name, v) :: ms) b :=
  .present (by simp [Field.defaulted, hread, Except.map]) h

/-- A field with a value of its own, left out if the record has this value from the start. -/
theorem Written.unless {c : Prop} [Decidable c] (hread : ¬c → read o v.toOutline = .ok x)
    (hstart : c → set x a = a) (h : Written o fields (set x a) ms b) :
    Written o (.defaulted name read set :: fields) a ((if c then [] else [(name, v)]) ++ ms) b := by
  by_cases hc : c
  · rw [if_pos hc]
    rw [hstart hc] at h
    exact .absent rfl h
  · rw [if_neg hc]
    exact .defaulted (hread hc) h

/-- A field that is left out without a value; the record has none either from the start. -/
theorem Written.optional {set : Option β → α → α} {y : Option β} {enc : β → Json}
    (hread : ∀ x, y = some x → readOptional read o (enc x).toOutline = .ok (some x))
    (hnone : set none a = a) (h : Written o fields (set y a) ms b) :
    Written o (.defaulted name (readOptional read) set :: fields) a
      ((y.toList.map fun x => (name, enc x)) ++ ms) b := by
  cases y with
  | none =>
    rw [hnone] at h
    exact .absent rfl h
  | some x => exact .defaulted (hread x rfl) h

end

/-- Fields of different names. -/
def Distinct (r : Record α) : Prop := (r.fields.map Field.name).Nodup

instance (r : Record α) : Decidable r.Distinct :=
  inferInstanceAs (Decidable (r.fields.map Field.name).Nodup)

theorem find?_name (hr : r.Distinct) {f : Field α} (hf : f ∈ r.fields) :
    r.fields.find? (fun g => g.name == f.name) = some f := by
  rw [Distinct] at hr
  generalize r.fields = fields at hr hf
  induction fields with
  | nil => cases hf
  | cons g fields ih =>
    obtain ⟨hg, hfields⟩ := List.nodup_cons.1 hr
    rcases List.mem_cons.1 hf with rfl | hf
    · simp
    · have hne : g.name ≠ f.name := fun heq => hg (heq ▸ List.mem_map_of_mem hf)
      rw [List.find?_cons_of_neg (by simpa using hne)]
      exact ih hfields hf

theorem Written.required {fields : List (Field α)} {a b : α} {ms : List (String × Json)}
    (h : Written o fields a ms b) {f : Field α} (hf : f ∈ fields) (hrequired : f.required = true) :
    f.name ∈ ms.map Prod.fst := by
  induction h with
  | nil => cases hf
  | absent habsent _ ih =>
    rcases List.mem_cons.1 hf with rfl | hf
    · rw [habsent] at hrequired
      cases hrequired
    · exact ih hf
  | present _ _ ih =>
    rcases List.mem_cons.1 hf with rfl | hf
    · exact List.mem_cons_self
    · exact List.mem_cons_of_mem _ (ih hf)

section

variable {other : String → Outline → α → Decoded α} {fields : List (Field α)} {a b : α}
  {ms l : List (String × Json)}

/-- Members that are no fields, and are read as themselves. -/
def Apart (r : Record α) (o : Origin) (l : List (String × Json)) : Prop :=
  ∀ e ∈ l, (∀ f ∈ r.fields, f.name ≠ e.1) ∧ readJson o e.2.toOutline = .ok e.2

/-- Reads one member into a record. -/
def readMember (r : Record α) (o : Origin) (other : String → Outline → α → Decoded α) (a : α)
    (e : String × Json) : Decoded α :=
  match r.fields.find? (fun f => f.name == e.1) with
  | some f => f.read o e.2.toOutline a
  | none => other e.1 e.2.toOutline a

/-- Reading members of different names is reading them one by one. -/
theorem readMembers_of_foldlM (hnodup : (ms.map Prod.fst).Nodup) {seen : List String}
    (hseen : ∀ e ∈ ms, e.1 ∉ seen) (h : ms.foldlM (r.readMember o other) a = .ok b) :
    ∃ seen', r.readMembers o other seen a (toMembers ms) = .ok (seen', b) ∧
      ∀ f ∈ r.fields, f.name ∈ ms.map Prod.fst ∨ f.name ∈ seen → f.name ∈ seen' := by
  induction ms generalizing seen a with
  | nil =>
    cases h
    exact ⟨seen, rfl, fun f _ hf => hf.resolve_left List.not_mem_nil⟩
  | cons e ms ih =>
    obtain ⟨he, hnodup⟩ := List.nodup_cons.1 hnodup
    obtain ⟨hfirst, hseen⟩ := List.forall_mem_cons.1 hseen
    rw [List.foldlM_cons] at h
    obtain ⟨a', hread, h⟩ := bind_eq_ok.1 h
    rw [readMember] at hread
    rcases hfind : r.fields.find? (fun f => f.name == e.1) with _ | f
    · simp only [hfind] at hread
      obtain ⟨seen', hrest, hnames⟩ := ih hnodup hseen h
      refine ⟨seen', ?_, fun f hf hname => hnames f hf ?_⟩
      · rw [toMembers, readMembers, hfind]
        simp only [hread]
        exact hrest
      · have hother : f.name ≠ e.1 := by simpa using List.find?_eq_none.1 hfind f hf
        rwa [List.map_cons, List.mem_cons, or_iff_right hother] at hname
    · simp only [hfind] at hread
      have hnew : seen.contains e.1 = false := by simpa using hfirst
      have hseen' : ∀ g ∈ ms, g.1 ∉ e.1 :: seen := by
        intro g hg hmem
        rcases List.mem_cons.1 hmem with heq | hmem
        · exact he (heq ▸ List.mem_map_of_mem hg)
        · exact hseen g hg hmem
      obtain ⟨seen', hrest, hnames⟩ := ih hnodup hseen' h
      refine ⟨seen', ?_, fun f hf hname => hnames f hf ?_⟩
      · rw [toMembers, readMembers, hfind]
        simp only [hnew, hread]
        exact hrest
      · rwa [List.map_cons, List.mem_cons, or_assoc, or_left_comm, ← List.mem_cons] at hname

theorem Written.foldlM (hr : r.Distinct) (hfields : ∀ f ∈ fields, f ∈ r.fields)
    (h : Written o fields a ms b) : ms.foldlM (r.readMember o other) a = .ok b := by
  induction h with
  | nil => rfl
  | absent _ _ ih => exact ih fun g hg => hfields g (List.mem_cons_of_mem _ hg)
  | @present f _ _ _ _ _ _ hread _ ih =>
    rw [List.foldlM_cons, readMember, find?_name hr (hfields f List.mem_cons_self)]
    exact bind_eq_ok.2 ⟨_, hread, ih fun g hg => hfields g (List.mem_cons_of_mem _ hg)⟩

theorem Apart.foldlM (hl : r.Apart o l) (a : α) :
    l.foldlM (r.readMember o fun k v a => do return keep k (← readJson o v) a) a =
      .ok (l.foldl (fun a e => keep e.1 e.2 a) a) := by
  induction l generalizing a with
  | nil => rfl
  | cons e l ih =>
    obtain ⟨⟨hname, hv⟩, hl⟩ := List.forall_mem_cons.1 hl
    have hnone : r.fields.find? (fun f => f.name == e.1) = none := by
      simpa using hname
    rw [List.foldlM_cons, readMember, hnone]
    exact bind_eq_ok.2 ⟨_, by rw [hv]; rfl, ih hl (keep e.1 e.2 a)⟩

/-- The names that were written are names of the fields, in their order. -/
theorem Written.names_sublist (h : Written o fields a ms b) :
    (ms.map Prod.fst).Sublist (fields.map Field.name) := by
  induction h with
  | nil => exact .slnil
  | absent _ _ ih => exact ih.cons _
  | present _ _ ih => exact ih.cons_cons _

/-- No name repeats among the members of fields and others. -/
theorem Written.nodup_names (hr : r.Distinct) (h : Written o r.fields a ms b)
    (hl : ∀ e ∈ l, ∀ f ∈ r.fields, f.name ≠ e.1) (hnodup : (l.map Prod.fst).Nodup) :
    ((ms ++ l).map Prod.fst).Nodup := by
  rw [List.map_append]
  refine List.Nodup.append (hr.sublist h.names_sublist) hnodup fun k hk hk' => ?_
  obtain ⟨f, hf, rfl⟩ := List.mem_map.1 (h.names_sublist.subset hk)
  obtain ⟨e, he, hname⟩ := List.mem_map.1 hk'
  exact hl e he f hf hname.symm

/-- Members of different names, with all fields that have to be there, are read one by one. -/
theorem readMembers_written (hnodup : (ms.map Prod.fst).Nodup)
    (hread : ms.foldlM (r.readMember o other) a = .ok b)
    (hrequired : ∀ f ∈ r.fields, f.required = true → f.name ∈ ms.map Prod.fst) :
    (r.readMembers o other [] a (toMembers ms) >>= fun p => r.complete p.1 p.2) = .ok b := by
  obtain ⟨seen, hmembers, hseen⟩ := readMembers_of_foldlM hnodup (fun _ _ => List.not_mem_nil) hread
  have hnone : r.fields.find? (fun f => f.required && !seen.contains f.name) = none := by
    rw [List.find?_eq_none]
    intro f hf hmissing
    simp only [Bool.and_eq_true, Bool.not_eq_true', List.contains_eq_mem,
      decide_eq_false_iff_not] at hmissing
    exact hmissing.2 (hseen f hf (.inl (hrequired f hf hmissing.1)))
  refine bind_eq_ok.2 ⟨_, hmembers, ?_⟩
  rw [complete, hnone]

/-- Reading the object of a record reads the fields that are in it. -/
theorem read_written (hr : r.Distinct) (ho : o.enter = .ok o')
    (h : Written o' r.fields r.start ms a) : r.read o (Json.object ms).toOutline = .ok a := by
  rw [toOutline, read, ho]
  exact readMembers_written (hr.sublist h.names_sublist) (h.foldlM hr fun _ hf => hf)
    fun _ hf hrequired => h.required hf hrequired

theorem Written.foldlM_append (hr : r.Distinct) (h : Written o r.fields b ms a)
    (hl : r.Apart o l) :
    (ms ++ l).foldlM (r.readMember o fun k v a => do return keep k (← readJson o v) a) b =
      .ok (l.foldl (fun a e => keep e.1 e.2 a) a) := by
  rw [List.foldlM_append]
  exact bind_eq_ok.2 ⟨a, h.foldlM hr fun _ hf => hf, hl.foldlM a⟩

/-- Reading the object of an open record reads its fields and keeps the other members. -/
theorem readOpen_written (keep : String → Json → α → α) (hr : r.Distinct) (ho : o.enter = .ok o')
    (h : Written o' r.fields r.start ms a) (hl : r.Apart o' l) (hnodup : (l.map Prod.fst).Nodup) :
    r.readOpen keep o (Json.object (ms ++ l)).toOutline =
      .ok (l.foldl (fun a e => keep e.1 e.2 a) a) := by
  rw [toOutline, readOpen, ho]
  refine readMembers_written (h.nodup_names hr (fun e he => (hl e he).1) hnodup)
    (h.foldlM_append hr hl) fun f hf hrequired => ?_
  rw [List.map_append]
  exact List.mem_append_left _ (h.required hf hrequired)

end

end Record

/-! ## Canonical members -/

/-- The canonical forms of members, in the order in which they were written. -/
def canonicalEach (ms : List (String × Json)) : List (String × Json) :=
  ms.map fun e => (e.1, e.2.canonical)

theorem canonicalMembers_eq (m : NameMap Json) (ms : List (String × Json)) :
    canonicalMembers m ms = m.insertMany (canonicalEach ms) := by
  induction ms generalizing m with
  | nil => rfl
  | cons e ms ih =>
    rw [canonicalMembers, ih]
    rfl

theorem names_canonicalEach (ms : List (String × Json)) :
    (canonicalEach ms).map Prod.fst = ms.map Prod.fst := by
  rw [canonicalEach, List.map_map]
  rfl

theorem canonicalEach_eq_self {ms : List (String × Json)} (h : ∀ e ∈ ms, e.2.canonical = e.2) :
    canonicalEach ms = ms := by
  rw [canonicalEach]
  conv_rhs => rw [← List.map_id ms]
  refine List.map_congr_left fun e he => ?_
  rw [h e he]
  rfl

theorem lookup_canonicalEach (ms : List (String × Json)) (key : String) :
    (canonicalEach ms).lookup key = (ms.lookup key).map canonical := by
  induction ms with
  | nil => rfl
  | cons e ms ih =>
    rw [canonicalEach, List.map_cons, List.lookup_cons, List.lookup_cons]
    split
    · rfl
    · exact ih

/-- A name has the same value in the canonical form of an object, in canonical form. -/
theorem member?_canonical (ms : List (String × Json)) (key : String) :
    (Json.object ms).canonical.member? key = ((Json.object ms).member? key).map canonical := by
  have hreverse : (canonicalEach ms).reverse = canonicalEach ms.reverse := List.map_reverse.symm
  rw [canonical, member?, NameMap.lookup_reverse_entries, canonicalMembers_eq,
    NameMap.get?_insertMany_reverse, NameMap.get?_empty, Option.or_none, hreverse,
    lookup_canonicalEach]
  rfl

theorem member?_canonical_of_forall {ms : List (String × Json)}
    (h : ∀ e ∈ ms, e.2.canonical = e.2) (key : String) :
    (Json.object ms).canonical.member? key = (Json.object ms).member? key := by
  have hself : canonicalEach ms.reverse = ms.reverse :=
    canonicalEach_eq_self fun e he => h e (List.mem_reverse.1 he)
  rw [member?_canonical, member?, ← lookup_canonicalEach, hself]

/-- Members of different names are only put into order. -/
theorem exists_canonical_object {ms : List (String × Json)} (hnodup : (ms.map Prod.fst).Nodup) :
    ∃ ms', (Json.object ms).canonical = .object ms' ∧ (canonicalEach ms).Perm ms' := by
  refine ⟨_, rfl, ?_⟩
  rw [canonicalMembers_eq]
  have hperm := NameMap.perm_insertMany (m := .empty) (l := canonicalEach ms)
    (by rwa [names_canonicalEach]) fun _ _ => NameMap.get?_empty _
  rw [NameMap.empty, List.append_nil] at hperm
  exact hperm.symm

/-! ## Changes in either order -/

section

variable {α β γ : Type}

/-- Two changes that may be made in either order. -/
def Interchange (f g : α → Decoded α) : Prop :=
  ∀ a b c, f a = .ok b → g b = .ok c → ∃ b', g a = .ok b' ∧ f b' = .ok c

theorem interchange_self (f : α → Decoded α) : Interchange f f :=
  fun _ b _ hf hg => ⟨b, hf, hg⟩

/-- What is read does not depend on the record, so it may be read in either order if it may be put
there so. -/
theorem interchange_of_map {f g : α → Decoded α} {x : Decoded β} {y : Decoded γ} {s : β → α → α}
    {t : γ → α → α} (hf : ∀ a, f a = x.map (s · a)) (hg : ∀ a, g a = y.map (t · a))
    (h : ∀ b c a, t c (s b a) = s b (t c a)) : Interchange f g := by
  intro a b c hfirst hsecond
  rw [hf] at hfirst
  rw [hg] at hsecond
  obtain ⟨u, rfl, rfl⟩ := map_eq_ok.1 hfirst
  obtain ⟨v, rfl, rfl⟩ := map_eq_ok.1 hsecond
  refine ⟨t v a, hg a, ?_⟩
  rw [hf, h]
  rfl

theorem foldlM_perm {f : α → β → Decoded α} {l l' : List β} (hperm : l.Perm l')
    (h : ∀ x ∈ l, ∀ y ∈ l, Interchange (f · x) (f · y)) {a b : α} (hrun : l.foldlM f a = .ok b) :
    l'.foldlM f a = .ok b := by
  induction hperm generalizing a with
  | nil => exact hrun
  | cons x hperm ih =>
    rw [List.foldlM_cons] at hrun ⊢
    obtain ⟨a', hx, hrun⟩ := bind_eq_ok.1 hrun
    exact bind_eq_ok.2 ⟨a', hx, ih (fun y hy z hz =>
      h y (List.mem_cons_of_mem _ hy) z (List.mem_cons_of_mem _ hz)) hrun⟩
  | swap x y l =>
    rw [List.foldlM_cons] at hrun ⊢
    obtain ⟨a₁, hy, hrun⟩ := bind_eq_ok.1 hrun
    rw [List.foldlM_cons] at hrun
    obtain ⟨a₂, hx, hrun⟩ := bind_eq_ok.1 hrun
    obtain ⟨a₁', hx', hy'⟩ := h y (by simp) x (by simp) a a₁ a₂ hy hx
    refine bind_eq_ok.2 ⟨a₁', hx', ?_⟩
    rw [List.foldlM_cons]
    exact bind_eq_ok.2 ⟨a₂, hy', hrun⟩
  | trans hperm _ ih ih' =>
    exact ih' (fun x hx y hy => h x (hperm.mem_iff.2 hx) y (hperm.mem_iff.2 hy)) (ih h hrun)

end

namespace Record

variable {α : Type} {r : Record α} {o o' : Origin} {other : String → Outline → α → Decoded α}
  {keep : String → Json → α → α} {a b : α} {ms ms' l : List (String × Json)}

/-! ## Any order -/

/-- Fields are read into places of their own. -/
def Separate (r : Record α) (o : Origin) : Prop :=
  ∀ f ∈ r.fields, ∀ g ∈ r.fields, f.name ≠ g.name → ∀ v w,
    Interchange (f.read o v) (g.read o w)

/-- Fields and other members are read into places of their own. -/
structure Independent (r : Record α) (o : Origin) (other : String → Outline → α → Decoded α) :
    Prop where
  fields : r.Separate o
  others : ∀ f ∈ r.fields, ∀ k v w,
    Interchange (f.read o v) (other k w) ∧ Interchange (other k w) (f.read o v)
  other : ∀ k k', k ≠ k' → ∀ v w, Interchange (other k v) (other k' w)

/-- What is skipped leaves the record as it is. -/
theorem Separate.independent (h : r.Separate o) :
    r.Independent o fun _ v a => do skip v; return a where
  fields := h
  others := by
    refine fun f _ k v w => ⟨fun a b c hread hskip => ?_, fun a b c hskip hread => ?_⟩
    · obtain ⟨u, hu, hskip⟩ := bind_eq_ok.1 hskip
      cases hskip
      exact ⟨a, bind_eq_ok.2 ⟨u, hu, rfl⟩, hread⟩
    · obtain ⟨u, hu, hskip⟩ := bind_eq_ok.1 hskip
      cases hskip
      exact ⟨c, hread, bind_eq_ok.2 ⟨u, hu, rfl⟩⟩
  other := by
    intro k k' _ v w a b c hskip hskip'
    obtain ⟨u, hu, hskip⟩ := bind_eq_ok.1 hskip
    cases hskip
    obtain ⟨u', hu', hskip'⟩ := bind_eq_ok.1 hskip'
    cases hskip'
    exact ⟨a, bind_eq_ok.2 ⟨u', hu', rfl⟩, bind_eq_ok.2 ⟨u, hu, rfl⟩⟩

theorem Independent.interchange_readMember (hi : r.Independent o other) {e e' : String × Json}
    (hne : e.1 ≠ e'.1) :
    Interchange (r.readMember o other · e) (r.readMember o other · e') := by
  have hname : ∀ {f : Field α} {k : String}, r.fields.find? (fun f => f.name == k) = some f →
      f ∈ r.fields ∧ f.name = k := fun hfind =>
    ⟨List.mem_of_find?_eq_some hfind, by simpa using List.find?_some hfind⟩
  rcases hfind : r.fields.find? (fun f => f.name == e.1) with _ | f <;>
    rcases hfind' : r.fields.find? (fun f => f.name == e'.1) with _ | f' <;>
    simp only [readMember, hfind, hfind']
  · exact hi.other _ _ hne _ _
  · exact (hi.others f' (hname hfind').1 _ _ _).2
  · exact (hi.others f (hname hfind).1 _ _ _).1
  · refine hi.fields f (hname hfind).1 f' (hname hfind').1 ?_ _ _
    rwa [(hname hfind).2, (hname hfind').2]

theorem Independent.foldlM_perm (hi : r.Independent o other) (hnodup : (ms.map Prod.fst).Nodup)
    (hperm : ms.Perm ms') (h : ms.foldlM (r.readMember o other) a = .ok b) :
    ms'.foldlM (r.readMember o other) a = .ok b := by
  refine Json.foldlM_perm hperm (fun e he e' he' => ?_) h
  by_cases hname : e.1 = e'.1
  · rw [List.inj_on_of_nodup_map hnodup he he' hname]
    exact interchange_self _
  · exact hi.interchange_readMember hname

/-- A record is read from its members in any order. -/
theorem read_reordered (hr : r.Distinct) (hs : r.Separate o') (ho : o.enter = .ok o')
    (h : Written o' r.fields r.start ms a) (hperm : ms.Perm ms') :
    r.read o (Json.object ms').toOutline = .ok a := by
  have hnodup := hr.sublist h.names_sublist
  have hnames := hperm.map Prod.fst
  rw [toOutline, read, ho]
  exact readMembers_written (hnames.nodup_iff.1 hnodup)
    (hs.independent.foldlM_perm hnodup hperm (h.foldlM hr fun _ hf => hf))
    fun f hf hrequired => hnames.mem_iff.1 (h.required hf hrequired)

/-- An open record is read from its members in any order, the fields among the others. -/
theorem readOpen_reordered (hr : r.Distinct)
    (hi : r.Independent o' fun k v a => do return keep k (← readJson o' v) a)
    (ho : o.enter = .ok o') (h : Written o' r.fields r.start ms a) (hl : r.Apart o' l)
    (hnodup : (l.map Prod.fst).Nodup) (hperm : (ms ++ l).Perm ms') :
    r.readOpen keep o (Json.object ms').toOutline = .ok (l.foldl (fun a e => keep e.1 e.2 a) a) := by
  have hnodup := h.nodup_names hr (fun e he => (hl e he).1) hnodup
  have hnames := hperm.map Prod.fst
  rw [toOutline, readOpen, ho]
  refine readMembers_written (hnames.nodup_iff.1 hnodup)
    (hi.foldlM_perm hnodup hperm (h.foldlM_append hr hl)) fun f hf hrequired => hnames.mem_iff.1 ?_
  rw [List.map_append]
  exact List.mem_append_left _ (h.required hf hrequired)

end Record

end CodeGraph.Json
