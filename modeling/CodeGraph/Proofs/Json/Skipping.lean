import CodeGraph.Proofs.Json.Records

/-!
# What is read can be skipped

A reader that walks over a value goes wrong at a break in the text only, and so does every reader of a
type (`Skippable`): of a text that breaks off inside a value no reader makes anything. A record is read
from values that can be skipped if its fields are (`Record.skip_of_read`).
-/

namespace CodeGraph.Json

/-- A reader makes nothing of a value that cannot be skipped. -/
def Skippable {α : Type} (read : Origin → Outline → Decoded α) : Prop :=
  ∀ o v a, read o v = .ok a → skip v = .ok ()

/-- A field that is not read from a value that cannot be skipped. -/
def Field.Skippable {α : Type} (f : Field α) : Prop :=
  ∀ o v a b, f.read o v a = .ok b → skip v = .ok ()

section

variable {α β : Type} {read : Origin → Outline → Decoded β}

theorem Field.Skippable.needed {name : String} {set : β → α → α} (h : Json.Skippable read) :
    (Field.needed name read set).Skippable := by
  intro o v a b hread
  obtain ⟨x, hx, -⟩ := map_eq_ok.1 hread
  exact h o v x hx

theorem Field.Skippable.defaulted {name : String} {set : β → α → α} (h : Json.Skippable read) :
    (Field.defaulted name read set).Skippable :=
  @Field.Skippable.needed α β read name set h

/-! ## Plain values -/

theorem skippable_readString : Skippable readString := by
  intro o v s h
  cases v with
  | string | moment => rfl
  | _ => exact absurd h (unexpected_ne_ok _ _ _)

theorem skippable_readBool : Skippable readBool := by
  intro o v b h
  cases v with
  | bool => rfl
  | _ => exact absurd h (unexpected_ne_ok _ _ _)

theorem skip_of_readNatural {bound : Nat} {expected : String} {v : Outline} {n : Nat}
    (h : readNatural bound expected v = .ok n) : skip v = .ok () := by
  cases v with
  | number => rfl
  | _ => exact absurd h (unexpected_ne_ok _ _ _)

theorem skippable_readWord : Skippable readWord := by
  intro o v n h
  obtain ⟨m, hm, -⟩ := map_eq_ok.1 h
  exact skip_of_readNatural hm

theorem skippable_readSize : Skippable readSize := by
  intro o v n h
  obtain ⟨m, hm, -⟩ := map_eq_ok.1 h
  exact skip_of_readNatural hm

theorem skippable_readDouble : Skippable readDouble := by
  intro o v x h
  cases v with
  | number => rfl
  | _ => exact absurd h (unexpected_ne_ok _ _ _)

theorem skippable_readOptional (h : Skippable read) : Skippable (readOptional read) := by
  intro o v x hread
  cases v with
  | null => rfl
  | _ =>
    obtain ⟨y, hy, -⟩ := map_eq_ok.1 hread
    exact h o _ y hy

theorem eq_null_of_readUnit {v : Outline} (h : readUnit v = .ok ()) : v = .null := by
  cases v with
  | null => rfl
  | _ => exact absurd h (unexpected_ne_ok _ _ _)

theorem eq_done_of_endOfMembers {ms : Members} (h : endOfMembers ms = .ok ()) : ms = .done := by
  cases ms with
  | done => rfl
  | cons | misplaced => cases h
  | broken comma => cases comma <;> cases h

/-- A constructor is the only member, with nothing behind its name or with an empty table. -/
theorem skipMembers_of_readVariant {known : List (String × β)} {o : Origin} {ms : Members} {a : β}
    (h : readVariant known o (.object ms) = .ok a) : skipMembers ms = .ok () := by
  rcases o with room | _ | _
  case text =>
    obtain ⟨o', -, h⟩ := bind_eq_ok.1 h
    cases ms with
    | done | broken => cases h
    | misplaced => exact absurd h (unexpected_ne_ok _ _ _)
    | cons name v rest =>
      rcases name with f | k
      · cases h
      obtain ⟨b, -, h⟩ := bind_eq_ok.1 h
      obtain ⟨⟨⟩, hunit, h⟩ := bind_eq_ok.1 h
      obtain ⟨⟨⟩, hend, -⟩ := bind_eq_ok.1 h
      rw [eq_null_of_readUnit hunit, eq_done_of_endOfMembers hend]
      rfl
  case value =>
    rcases ms with _ | ⟨_ | k, v, _ | _ | _ | _⟩ | _ | _
    case cons.ok.done =>
      obtain ⟨b, -, h⟩ := bind_eq_ok.1 h
      obtain ⟨⟨⟩, hunit, -⟩ := bind_eq_ok.1 h
      rw [eq_null_of_readUnit hunit]
      rfl
    all_goals cases h
  case table =>
    rcases ms with _ | ⟨_ | k, v, _ | _ | _ | _⟩ | _ | _
    case cons.ok.done =>
      obtain ⟨b, -, h⟩ := bind_eq_ok.1 h
      obtain ⟨⟨⟩, htable, -⟩ := bind_eq_ok.1 h
      cases v with
      | array items =>
        cases items <;> cases htable
        rfl
      | object ms =>
        cases ms <;> cases htable
        rfl
      | _ => cases htable
    all_goals cases h

theorem skippable_readVariant (known : List (String × β)) : Skippable (readVariant known) := by
  intro o v a h
  cases v with
  | null | bool | number | string | moment | unreadable => rfl
  | array | broken => rcases o with _ | _ | _ <;> cases h
  | object ms =>
    exact skipMembers_of_readVariant h

/-! ## Lists and any value -/

theorem skipItems_of_readItems {o : Origin} (h : Skippable read) (items : Elements) {l : List β}
    (hread : readItems (read o) items = .ok l) : skipItems items = .ok () := by
  cases items with
  | done => rfl
  | broken => cases hread
  | cons v rest =>
    obtain ⟨x, hx, hread⟩ := bind_eq_ok.1 hread
    obtain ⟨xs, hxs, -⟩ := bind_eq_ok.1 hread
    rw [skipItems, h o v x hx]
    exact skipItems_of_readItems h rest hxs

theorem skippable_readList (h : Skippable read) : Skippable (readList read) := by
  intro o v l hread
  cases v with
  | array items =>
    obtain ⟨o', -, hread⟩ := bind_eq_ok.1 hread
    exact skipItems_of_readItems h items hread
  | _ => exact absurd hread (unexpected_ne_ok _ _ _)

end

mutual

theorem skippable_readJson (o : Origin) (v : Outline) (j : Json) (h : readJson o v = .ok j) :
    skip v = .ok () := by
  cases v with
  | null | bool | number | string | moment => rfl
  | unreadable | broken => cases h
  | array items =>
    rw [readJson] at h
    obtain ⟨o', -, h⟩ := bind_eq_ok.1 h
    obtain ⟨l, hl, -⟩ := bind_eq_ok.1 h
    exact skipItems_of_readJsonItems o' items l hl
  | object ms =>
    rw [readJson] at h
    obtain ⟨o', -, h⟩ := bind_eq_ok.1 h
    obtain ⟨m, hm, -⟩ := bind_eq_ok.1 h
    exact skipMembers_of_readJsonMembers o' .empty ms m hm

theorem skipItems_of_readJsonItems (o : Origin) (items : Elements) (l : List Json)
    (h : readJsonItems o items = .ok l) : skipItems items = .ok () := by
  cases items with
  | done => rfl
  | broken => cases h
  | cons v rest =>
    rw [readJsonItems] at h
    obtain ⟨j, hj, h⟩ := bind_eq_ok.1 h
    obtain ⟨l', hl, -⟩ := bind_eq_ok.1 h
    rw [skipItems, skippable_readJson o v j hj]
    exact skipItems_of_readJsonItems o rest l' hl

theorem skipMembers_of_readJsonMembers (o : Origin) (m : NameMap Json) (ms : Members)
    (m' : NameMap Json) (h : readJsonMembers o m ms = .ok m') : skipMembers ms = .ok () := by
  cases ms with
  | done => rfl
  | misplaced | broken => cases h
  | cons name v rest =>
    rcases name with f | k
    · cases h
    rw [readJsonMembers] at h
    obtain ⟨j, hj, h⟩ := bind_eq_ok.1 h
    rw [skipMembers, skippable_readJson o v j hj]
    exact skipMembers_of_readJsonMembers o _ rest m' h

end

/-! ## Records -/

namespace Record

variable {α : Type} {r : Record α} {o : Origin} {other : String → Outline → α → Decoded α}

theorem skipMembers_of_readMembers (hfields : ∀ f ∈ r.fields, f.Skippable)
    (hother : ∀ k v a b, other k v a = .ok b → skip v = .ok ()) (ms : Members)
    {seen : List String} {a : α} {s : List String × α}
    (h : r.readMembers o other seen a ms = .ok s) : skipMembers ms = .ok () := by
  cases ms with
  | done => rfl
  | misplaced | broken => cases h
  | cons name v rest =>
    obtain ⟨k, rfl, ⟨f, hf, -, -, b, hread, h⟩ | ⟨-, b, hread, h⟩⟩ := readMembers_cons_eq_ok h
    · rw [skipMembers, hfields f hf o v a b hread]
      exact skipMembers_of_readMembers hfields hother rest h
    · rw [skipMembers, hother k v a b hread]
      exact skipMembers_of_readMembers hfields hother rest h

theorem eq_done_of_endOfItems {n : Nat} {items : Elements} (h : endOfItems o n items = .ok ()) :
    items = .done := by
  cases items with
  | done => rfl
  | broken comma _ => cases comma <;> cases h
  | cons => cases o <;> cases h

theorem skipItems_of_readPositions {fields : List (Field α)} (hfields : ∀ f ∈ fields, f.Skippable)
    {items : Elements} {n : Nat} {a b : α} (h : r.readPositions o n a fields items = .ok b) :
    skipItems items = .ok () := by
  induction fields generalizing items n a with
  | nil =>
    obtain ⟨⟨⟩, hend, -⟩ := bind_eq_ok.1 h
    rw [eq_done_of_endOfItems hend]
    rfl
  | cons f fields ih =>
    obtain ⟨hf, hfields⟩ := List.forall_mem_cons.1 hfields
    cases items with
    | done => rfl
    | broken => cases h
    | cons v rest =>
      obtain ⟨a', hread, h⟩ := bind_eq_ok.1 h
      rw [skipItems, hf o v a a' hread]
      exact ih hfields h

/-- What a record is read from can be skipped if this is so for every field. -/
theorem skippable_read (hfields : ∀ f ∈ r.fields, f.Skippable) : Skippable r.read := by
  intro o v a h
  cases v with
  | object ms =>
    obtain ⟨o', -, h⟩ := bind_eq_ok.1 h
    obtain ⟨s, hms, -⟩ := bind_eq_ok.1 h
    refine skipMembers_of_readMembers hfields (fun k v a b hskip => ?_) ms hms
    obtain ⟨⟨⟩, hv, -⟩ := bind_eq_ok.1 hskip
    exact hv
  | array items =>
    obtain ⟨o', -, h⟩ := bind_eq_ok.1 h
    exact skipItems_of_readPositions hfields h
  | _ => exact absurd h (unexpected_ne_ok _ _ _)

theorem skippable_readOpen {keep : String → Json → α → α}
    (hfields : ∀ f ∈ r.fields, f.Skippable) : Skippable (r.readOpen keep) := by
  intro o v a h
  cases v with
  | object ms =>
    obtain ⟨o', -, h⟩ := bind_eq_ok.1 h
    obtain ⟨s, hms, -⟩ := bind_eq_ok.1 h
    refine skipMembers_of_readMembers hfields (fun k v a b hother => ?_) ms hms
    obtain ⟨j, hj, -⟩ := bind_eq_ok.1 hother
    exact skippable_readJson o' v j hj
  | _ => exact absurd h (unexpected_ne_ok _ _ _)

end Record

/-! ## Whole texts -/

/-- A reader reads a text if it reads the outline and nothing follows it. -/
theorem decodeGlyphs_eq_ok {α : Type} {read : Origin → Outline → Decoded α} {gs : List Text.Glyph}
    {a : α} : decodeGlyphs read gs = .ok a ↔
      read .start (outline gs).1 = .ok a ∧ (outline gs).2 = false := by
  rw [decodeGlyphs]
  rcases outline gs with ⟨v, more⟩
  dsimp only
  rcases read .start v with e | b
  · constructor
    · intro h
      cases h
    · rintro ⟨h, -⟩
      cases h
  · cases more with
    | false => exact ⟨fun h => ⟨h, rfl⟩, fun h => h.1⟩
    | true =>
      constructor
      · intro h
        cases h
      · rintro ⟨-, h⟩
        cases h

end CodeGraph.Json
