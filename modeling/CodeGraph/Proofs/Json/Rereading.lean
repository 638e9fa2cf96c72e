import CodeGraph.Proofs.Json.Doubles
import CodeGraph.Proofs.Json.RoundTrip
import CodeGraph.Proofs.NameMap

/-!
# Values read from values

What is read of any shape is read as itself (`readJson_readJson`): the members of its objects are in
order and none of its doubles is infinite. A value that is there already is read as its canonical
form if its doubles are finite and it does not nest too deep (`readJson_toOutline`).

No text spells an infinite double, or one that is not a number (`outline_isFinite`). So a type whose
values are read as themselves once they have been read is `Stable`: what is written of a value that was
read from a text is read as this value again.
-/

namespace CodeGraph.Json

open CodeGraph.Text

/-! ## Steps of a reader -/

section

variable {α β : Type} {x : Decoded α} {b : β}

theorem bind_eq_ok {f : α → Decoded β} : x >>= f = .ok b ↔ ∃ a, x = .ok a ∧ f a = .ok b := by
  cases x with
  | error e => exact ⟨fun h => (nomatch h), fun ⟨_, h, _⟩ => (nomatch h)⟩
  | ok a => exact ⟨fun h => ⟨a, rfl, h⟩, fun ⟨_, rfl, h⟩ => h⟩

theorem map_eq_ok {f : α → β} : x.map f = .ok b ↔ ∃ a, x = .ok a ∧ f a = b := by
  cases x with
  | error e => exact ⟨fun h => (nomatch h), fun ⟨_, h, _⟩ => (nomatch h)⟩
  | ok a => simp [Except.map]

theorem mapError_eq_ok {f : Failure → Failure} {a : α} : x.mapError f = .ok a ↔ x = .ok a := by
  cases x with
  | error e => exact ⟨fun h => (nomatch h), fun h => (nomatch h)⟩
  | ok a => exact Iff.rfl

end

/-! ## Finite doubles -/

mutual

/-- Every double of an outline is finite. -/
def Outline.IsFinite : Outline → Prop
  | .number (.double x) => x.isFinite = true
  | .array items => items.IsFinite
  | .object ms => ms.IsFinite
  | _ => True

def Elements.IsFinite : Elements → Prop
  | .cons v rest => v.IsFinite ∧ rest.IsFinite
  | _ => True

def Members.IsFinite : Members → Prop
  | .cons _ v rest => v.IsFinite ∧ rest.IsFinite
  | _ => True

end

theorem number?_isFinite {n : Numeral} {x : Float} (h : n.number? = some (.double x)) :
    x.isFinite = true := by
  have hdouble : ∀ {y : Option Float}, y = n.double? → y.map Number.double = some (.double x) →
      x.isFinite = true := by
    rintro y rfl hy
    rcases hd : n.double? with _ | z
    · rw [hd] at hy
      cases hy
    · rw [hd] at hy
      simp only [Option.map_some, Option.some.injEq, Number.double.injEq] at hy
      exact hy ▸ double?_isFinite hd
  rw [Numeral.number?] at h
  split at h
  · dsimp only at h
    split at h
    · simp only [Option.some.injEq, Number.double.injEq] at h
      subst h
      decide
    · split at h
      · cases h
      · exact hdouble rfl h
  · exact hdouble rfl h

theorem numberOutline_isFinite (negative : Bool) (gs : List Glyph) :
    (numberOutline negative gs).1.IsFinite := by
  rw [numberOutline]
  split
  · trivial
  · next n rest _ =>
    split
    · next v hv =>
      cases v with
      | int i => trivial
      | double x => exact number?_isFinite hv
    · trivial

theorem word_isFinite {v : Outline} (hv : v.IsFinite) (cs : List Char) (gs : List Glyph) :
    (word v cs gs).1.IsFinite := by
  induction cs generalizing gs with
  | nil => exact hv
  | cons c cs ih =>
    cases gs with
    | nil => trivial
    | cons g gs =>
      rw [word]
      split
      · exact ih gs
      · trivial

mutual

theorem value_isFinite (fuel : Nat) (gs : List Glyph) : (value fuel gs).1.IsFinite := by
  cases fuel with
  | zero => trivial
  | succ fuel =>
    rw [value]
    split
    · trivial
    · trivial
    · next c rest _ =>
      split
      · split <;> trivial
      split
      · exact elements_isFinite fuel true rest
      split
      · exact members_isFinite fuel true rest
      split
      · exact word_isFinite (v := .null) trivial _ _
      split
      · exact word_isFinite (v := .bool true) trivial _ _
      split
      · exact word_isFinite (v := .bool false) trivial _ _
      split
      · exact numberOutline_isFinite _ _
      split
      · exact numberOutline_isFinite _ _
      · trivial

theorem elements_isFinite (fuel : Nat) (first : Bool) (gs : List Glyph) :
    (elements fuel first gs).1.IsFinite := by
  cases fuel with
  | zero => trivial
  | succ fuel =>
    rw [elements]
    split
    · trivial
    · trivial
    · split
      · exact ⟨value_isFinite fuel _, elements_isFinite fuel false _⟩
      split
      · split
        · trivial
        · trivial
        · exact ⟨value_isFinite fuel _, elements_isFinite fuel false _⟩
      · trivial

theorem members_isFinite (fuel : Nat) (first : Bool) (gs : List Glyph) :
    (members fuel first gs).1.IsFinite := by
  cases fuel with
  | zero => trivial
  | succ fuel =>
    rw [members]
    split
    · trivial
    · trivial
    · split
      · split
        · exact member_isFinite fuel false _
        · trivial
      split
      · split
        · trivial
        · exact member_isFinite fuel true _
        · trivial
        · trivial
      · trivial

theorem member_isFinite (fuel : Nat) (comma : Bool) (gs : List Glyph) :
    (member fuel comma gs).1.IsFinite := by
  cases fuel with
  | zero => trivial
  | succ fuel =>
    rw [member]
    split
    · trivial
    · split
      · exact ⟨trivial, trivial⟩
      · exact ⟨value_isFinite fuel _, members_isFinite fuel false _⟩
      · exact ⟨trivial, trivial⟩

end

theorem outline_isFinite (gs : List Glyph) : (outline gs).1.IsFinite :=
  value_isFinite (3 * gs.length + 3) gs

/-! ## Values of any shape -/

/-- What is read of members that are read as themselves. -/
theorem readJsonMembers_toMembers {o : Origin} (m : NameMap Json) {l : List (String × Json)}
    (hl : ∀ e ∈ l, readJson o e.2.toOutline = .ok e.2) :
    readJsonMembers o m (toMembers l) = .ok (m.insertMany l) := by
  induction l generalizing m with
  | nil => rfl
  | cons e l ih =>
    obtain ⟨hv, hl⟩ := List.forall_mem_cons.1 hl
    rw [toMembers, readJsonMembers, hv]
    exact ih (m.insert e.1 e.2) hl

mutual

/-- What is read of a value is read as itself. -/
theorem readJson_readJson {o : Origin} (w : Outline) {v : Json} (h : readJson o w = .ok v) :
    readJson o v.toOutline = .ok v := by
  cases w with
  | null | bool | string | moment =>
    cases h
    rfl
  | number n =>
    cases n with
    | int i =>
      cases h
      rfl
    | double x =>
      cases h
      rw [ofDouble]
      split
      · next hx => simp [toOutline, readJson, ofDouble, hx]
      · rfl
  | unreadable | broken => cases h
  | array items =>
    rw [readJson] at h
    obtain ⟨o', ho, h⟩ := bind_eq_ok.1 h
    obtain ⟨l, hitems, h⟩ := bind_eq_ok.1 h
    cases h
    rw [toOutline, readJson, ho]
    change (do return Json.array (← readJsonItems o' (toElements l))) = _
    rw [readJsonItems_readJsonItems items hitems]
    rfl
  | object ms =>
    rw [readJson] at h
    obtain ⟨o', ho, h⟩ := bind_eq_ok.1 h
    obtain ⟨m, hms, h⟩ := bind_eq_ok.1 h
    cases h
    have hstable := readJson_of_readJsonMembers ms (m := .empty) (by simp [NameMap.empty]) hms
    rw [ofMap, toOutline, readJson, ho]
    change (do return Json.ofMap (← readJsonMembers o' .empty (toMembers m.entries))) = _
    rw [readJsonMembers_toMembers .empty hstable, NameMap.insertMany_entries]
    rfl

theorem readJsonItems_readJsonItems {o : Origin} (items : Elements) {l : List Json}
    (h : readJsonItems o items = .ok l) : readJsonItems o (toElements l) = .ok l := by
  cases items with
  | done =>
    cases h
    rfl
  | broken => cases h
  | cons w rest =>
    rw [readJsonItems] at h
    obtain ⟨v, hv, h⟩ := bind_eq_ok.1 h
    obtain ⟨l', hrest, h⟩ := bind_eq_ok.1 h
    cases h
    rw [toElements, readJsonItems, readJson_readJson w hv, readJsonItems_readJsonItems rest hrest]
    rfl

theorem readJson_of_readJsonMembers {o : Origin} (ms : Members) {m m' : NameMap Json}
    (hm : ∀ e ∈ m.entries, readJson o e.2.toOutline = .ok e.2)
    (h : readJsonMembers o m ms = .ok m') :
    ∀ e ∈ m'.entries, readJson o e.2.toOutline = .ok e.2 := by
  cases ms with
  | done =>
    cases h
    exact hm
  | misplaced | broken => cases h
  | cons name w rest =>
    rcases name with f | k
    · cases h
    rw [readJsonMembers] at h
    obtain ⟨v, hv, h⟩ := bind_eq_ok.1 h
    refine readJson_of_readJsonMembers rest ?_ h
    intro e he
    rcases NameMap.mem_entries_insert he with rfl | he
    · exact readJson_readJson w hv
    · exact hm e he

end

/-! ## Canonical values -/

mutual

/-- How many arrays and objects nest. -/
def depth : Json → Nat
  | .array items => depthItems items + 1
  | .object ms => depthMembers ms + 1
  | _ => 0

def depthItems : List Json → Nat
  | [] => 0
  | v :: rest => max v.depth (depthItems rest)

def depthMembers : List (String × Json) → Nat
  | [] => 0
  | (_, v) :: rest => max v.depth (depthMembers rest)

end

/-- A value inside another one, under a number of arrays and objects. -/
inductive Nested : Nat → Json → Json → Prop
  | self (v : Json) : Nested 0 v v
  | item {k : Nat} {u v : Json} {items : List Json} :
      v ∈ items → Nested k u v → Nested (k + 1) u (.array items)
  | member {k : Nat} {u v : Json} {name : String} {ms : List (String × Json)} :
      (name, v) ∈ ms → Nested k u v → Nested (k + 1) u (.object ms)

theorem Nested.depth_le {k : Nat} {u v : Json} (h : Nested k u v) : u.depth + k ≤ v.depth := by
  have hitems : ∀ {items : List Json} {w : Json}, w ∈ items → w.depth ≤ depthItems items := by
    intro items w hw
    induction items with
    | nil => cases hw
    | cons x items ih =>
      rw [depthItems]
      rcases List.mem_cons.1 hw with rfl | hw
      · exact Nat.le_max_left ..
      · exact Nat.le_trans (ih hw) (Nat.le_max_right ..)
  have hmembers : ∀ {ms : List (String × Json)} {name : String} {w : Json}, (name, w) ∈ ms →
      w.depth ≤ depthMembers ms := by
    intro ms name w hw
    induction ms with
    | nil => cases hw
    | cons x ms ih =>
      rw [depthMembers]
      rcases List.mem_cons.1 hw with rfl | hw
      · exact Nat.le_max_left ..
      · exact Nat.le_trans (ih hw) (Nat.le_max_right ..)
  induction h with
  | self => exact Nat.le_refl _
  | item hmem _ ih =>
    have hle := hitems hmem
    rw [depth]
    omega
  | member hmem _ ih =>
    have hle := hmembers hmem
    rw [depth]
    omega

theorem Nested.isFinite {k : Nat} {u v : Json} (h : Nested k u v) (hv : v.toOutline.IsFinite) :
    u.toOutline.IsFinite := by
  have hitems : ∀ {items : List Json} {w : Json}, w ∈ items → (toElements items).IsFinite →
      w.toOutline.IsFinite := by
    intro items w hw hfinite
    induction items with
    | nil => cases hw
    | cons x items ih =>
      rcases List.mem_cons.1 hw with rfl | hw
      · exact hfinite.1
      · exact ih hw hfinite.2
  have hmembers : ∀ {ms : List (String × Json)} {name : String} {w : Json}, (name, w) ∈ ms →
      (toMembers ms).IsFinite → w.toOutline.IsFinite := by
    intro ms name w hw hfinite
    induction ms with
    | nil => cases hw
    | cons x ms ih =>
      rcases List.mem_cons.1 hw with rfl | hw
      · exact hfinite.1
      · exact ih hw hfinite.2
  induction h with
  | self => exact hv
  | item hmem _ ih => exact ih (hitems hmem hv)
  | member hmem _ ih => exact ih (hmembers hmem hv)

/-- Whether a value of a depth is read; only in a text may it nest too deep. -/
def Origin.Allows : Origin → Nat → Prop
  | .text room, depth => depth < room
  | .value, _ | .table, _ => True

theorem Origin.Allows.mono {o : Origin} {m n : Nat} (h : o.Allows n) (hle : m ≤ n) : o.Allows m := by
  cases o with
  | text room => exact Nat.lt_of_le_of_lt hle h
  | value | table => trivial

theorem Origin.Allows.enter {o : Origin} {n : Nat} (h : o.Allows (n + 1)) :
    ∃ o', o.enter = .ok o' ∧ o'.Allows n := by
  cases o with
  | text room =>
    obtain ⟨room, rfl⟩ : ∃ k, room = k + 2 := ⟨room - 2, by have : n + 1 < room := h; omega⟩
    exact ⟨.text (room + 1), rfl, Nat.lt_of_succ_lt_succ h⟩
  | value | table => exact ⟨_, rfl, trivial⟩

mutual

/-- A value whose doubles are finite is read as its canonical form, unless it nests too deep. -/
theorem readJson_toOutline {o : Origin} (v : Json) (hfinite : v.toOutline.IsFinite)
    (hdepth : o.Allows v.depth) : readJson o v.toOutline = .ok v.canonical := by
  cases v with
  | null | bool | string => rfl
  | number n =>
    cases n with
    | int i => rfl
    | double x =>
      have hx : x.isFinite = true := hfinite
      simp [toOutline, readJson, ofDouble, hx, canonical]
  | array items =>
    rw [depth] at hdepth
    obtain ⟨o', ho, hdepth⟩ := hdepth.enter
    rw [toOutline, readJson, ho]
    change (do return Json.array (← readJsonItems o' (toElements items))) = _
    rw [readJsonItems_toElements items hfinite hdepth]
    rfl
  | object ms =>
    rw [depth] at hdepth
    obtain ⟨o', ho, hdepth⟩ := hdepth.enter
    rw [toOutline, readJson, ho]
    change (do return Json.ofMap (← readJsonMembers o' .empty (toMembers ms))) = _
    rw [readJsonMembers_canonical .empty ms hfinite hdepth]
    rfl

theorem readJsonItems_toElements {o : Origin} (items : List Json)
    (hfinite : (toElements items).IsFinite) (hdepth : o.Allows (depthItems items)) :
    readJsonItems o (toElements items) = .ok (canonicalItems items) := by
  cases items with
  | nil => rfl
  | cons v rest =>
    rw [depthItems] at hdepth
    rw [toElements, readJsonItems, readJson_toOutline v hfinite.1 (hdepth.mono (Nat.le_max_left ..)),
      readJsonItems_toElements rest hfinite.2 (hdepth.mono (Nat.le_max_right ..))]
    rfl

theorem readJsonMembers_canonical {o : Origin} (m : NameMap Json) (ms : List (String × Json))
    (hfinite : (toMembers ms).IsFinite) (hdepth : o.Allows (depthMembers ms)) :
    readJsonMembers o m (toMembers ms) = .ok (canonicalMembers m ms) := by
  cases ms with
  | nil => rfl
  | cons e rest =>
    rw [depthMembers] at hdepth
    rw [toMembers, readJsonMembers,
      readJson_toOutline e.2 hfinite.1 (hdepth.mono (Nat.le_max_left ..))]
    exact readJsonMembers_canonical _ rest hfinite.2 (hdepth.mono (Nat.le_max_right ..))

end

/-! ## Texts -/

theorem isFinite_of_legible {v : Json} (hv : v.Legible) : v.toOutline.IsFinite := by
  have hfinite := outline_isFinite (glyphs (Layout.compact.text 0 v))
  rwa [outline_text _ _ hv] at hfinite

/-- A value that is read from any text is written as a text, compact or indented, that is read as an
equal value, and that value is written as the same text. -/
def Stable (α : Type) [Form α] : Prop :=
  ∀ (gs : List Glyph) (a : α), decodeGlyphs Form.read gs = .ok a → (Form.write a).Legible →
    (∃ b : α, decodeText Form.read (Form.write a).compact = .ok b ∧ b = a ∧
      (Form.write b).compact = (Form.write a).compact) ∧
    ∀ level, ∃ b : α, decodeText Form.read ((Form.write a).pretty level) = .ok b ∧ b = a ∧
      (Form.write b).pretty level = (Form.write a).pretty level

theorem stable_of_reread {α : Type} [Form α]
    (h : ∀ (w : Outline) (a : α), w.IsFinite → Form.read .start w = .ok a →
      Form.read .start (Form.write a).toOutline = .ok a) : Stable α := by
  intro gs a hdecode hlegible
  have hagain := h _ a (outline_isFinite gs) (read_of_decodeGlyphs _ hdecode)
  refine ⟨⟨a, ?_, rfl, rfl⟩, fun level => ⟨a, ?_, rfl, rfl⟩⟩
  · rw [decodeText_compact _ hlegible, hagain]
  · rw [decodeText_pretty _ level hlegible, hagain]

end CodeGraph.Json
