import CodeGraph.Json.Decode
import CodeGraph.Proofs.Json.Tokens

/-!
# Reading values that were written

The outline of the text of a value is the value, however items and members are set apart by blanks:
the compact text and the indented one are two layouts of one text (`Layout.text`). Doubles are an
exception that has to be named: how their digits are rounded is not looked into here, so a value is
taken to be legible if each of its doubles is read from its own text.

* `outline_text`: the outline of the text of a legible value.
* `decodeBytes_compact`, `decodeBytes_pretty`: a reader reads from the text of a value what it reads
  from the value.
-/

namespace CodeGraph.Json

open CodeGraph.Text

/-! ## Legible values -/

/-- Whether the text of a number is read as the number. -/
def LegibleNumber : Number → Prop
  | .int _ => True
  | .double x => ∀ (fuel : Nat) (rest : List Glyph), EndsNumber rest →
      value (fuel + 1) (glyphs (doubleText x).toList ++ rest) = (.number (.double x), rest)

mutual

/-- Whether the text of every number is read as the number. -/
def Legible : Json → Prop
  | .number n => LegibleNumber n
  | .array items => LegibleItems items
  | .object members => LegibleMembers members
  | _ => True

/-- `Legible`, item by item. -/
def LegibleItems : List Json → Prop
  | [] => True
  | v :: rest => v.Legible ∧ LegibleItems rest

/-- `Legible`, member by member. -/
def LegibleMembers : List (String × Json) → Prop
  | [] => True
  | (_, v) :: rest => v.Legible ∧ LegibleMembers rest

end

/-! ## Texts -/

theorem toList_quote (s : String) :
    (quote s).toList = '"' :: (s.toList.flatMap escape ++ ['"']) := by
  simp [quote]

/-- A digit starts a number that has no sign. -/
theorem value_digit {d : Char} (hd : d.isDigit = true) (fuel : Nat) (gs : List Glyph) :
    value (fuel + 1) (.char d :: gs) = numberOutline false (.char d :: gs) := by
  have hne : ∀ c : Char, c.isDigit = false → d ≠ c := by
    rintro c hc rfl
    rw [hd] at hc
    cases hc
  have hrange : '0' ≤ d ∧ d ≤ '9' := by
    simpa [Char.isDigit, Char.le_def] using hd
  have hblank : skipBlank (.char d :: gs) = .char d :: gs := by
    simp [skipBlank, hne]
  simp [value, hblank, hne, hrange]

theorem value_minus (fuel : Nat) (gs : List Glyph) :
    value (fuel + 1) (.char '-' :: gs) = numberOutline true gs := rfl

theorem value_bracket (fuel : Nat) (gs : List Glyph) :
    value (fuel + 1) (.char '[' :: gs) =
      (.array (elements fuel true gs).1, (elements fuel true gs).2) := rfl

theorem value_brace (fuel : Nat) (gs : List Glyph) :
    value (fuel + 1) (.char '\x7b' :: gs) =
      (.object (members fuel true gs).1, (members fuel true gs).2) := rfl

theorem value_integer (i : Integer) (fuel : Nat) {rest : List Glyph} (hrest : EndsNumber rest) :
    value (fuel + 1) (glyphs (toString i.val).toList ++ rest) = (.number (.int i), rest) := by
  rw [toList_toString_int]
  have hread := numberOutline_integer i hrest
  by_cases hneg : i.val < 0
  · simp only [hneg, decide_true] at hread
    rw [if_pos hneg]
    exact (value_minus fuel _).trans hread
  · simp only [hneg, decide_false] at hread
    obtain ⟨d, ds, hds⟩ := List.exists_cons_of_ne_nil (Nat.toDigits_ne_nil (b := 10)
      (n := i.val.natAbs))
    have hd : d.isDigit = true := isDigit_of_mem_toDigits_ten (hds ▸ List.mem_cons_self)
    rw [hds] at hread
    rw [if_neg hneg, List.nil_append, hds]
    exact (value_digit hd fuel _).trans hread

theorem value_number {n : Number} (hn : LegibleNumber n) (fuel : Nat) {rest : List Glyph}
    (hrest : EndsNumber rest) :
    value (fuel + 1) (glyphs (numberText n).toList ++ rest) = (.number n, rest) := by
  cases n with
  | int i => exact value_integer i fuel hrest
  | double x => exact hn fuel rest hrest

/-- A double is legible if its text is a digit, a point and digits, and these make the double. -/
theorem legibleNumber_double {x : Float} {d : Char} {fraction : List Char}
    (htext : (doubleText x).toList = d :: '.' :: fraction) (hd : d.isDigit = true)
    (hfraction : ∀ c ∈ fraction, c.isDigit = true) (hsome : fraction ≠ [])
    (hread : (Numeral.mk false [d.toNat - '0'.toNat]
      (some (fraction.map fun c => c.toNat - '0'.toNat)) none).double? = some x) :
    LegibleNumber (.double x) := by
  intro fuel rest hrest
  rw [htext]
  change value (fuel + 1) (.char d :: .char '.' :: (glyphs fraction ++ rest)) = _
  rw [value_digit hd, numberOutline, numeral_point false hd hfraction hsome hrest]
  simp only [Numeral.number?, hread, Option.map_some]

theorem legibleNumber_one : LegibleNumber (.double 1.0) :=
  @legibleNumber_double 1.0 '1' ['0'] (by decide +kernel) rfl (List.forall_mem_singleton.2 rfl)
    (List.cons_ne_nil _ _) rfl

theorem numberText_ne_nil {n : Number} (hn : LegibleNumber n) : (numberText n).toList ≠ [] := by
  intro hnil
  have hread := @value_number n hn 0 [] trivial
  rw [hnil] at hread
  cases congrArg Prod.fst hread

theorem value_quote (s : String) (fuel : Nat) (rest : List Glyph) :
    value (fuel + 1) (glyphs (quote s).toList ++ rest) = (.string s, rest) := by
  have hread := quoted_flatMap_escape s rest
  simp only [toList_quote]
  simpa [value, skipBlank] using by rw [hread]

theorem skipBlank_char {c : Char} (hc : ¬(c = ' ' ∨ c = '\n' ∨ c = '\t' ∨ c = '\r'))
    (gs : List Glyph) : skipBlank (.char c :: gs) = .char c :: gs := by
  rw [skipBlank, if_neg hc]

theorem skipBlank_skipBlank (gs : List Glyph) : skipBlank (skipBlank gs) = skipBlank gs := by
  induction gs with
  | nil => rfl
  | cons g gs ih =>
    cases g with
    | stray b => rfl
    | char c =>
      by_cases hc : c = ' ' ∨ c = '\n' ∨ c = '\t' ∨ c = '\r'
      · simpa [skipBlank, hc] using ih
      · simp [skipBlank, hc]

theorem value_skipBlank (fuel : Nat) (gs : List Glyph) :
    value fuel (skipBlank gs) = value fuel gs := by
  cases fuel with
  | zero => rfl
  | succ fuel => rw [value.eq_def, value.eq_def (fuel + 1) gs, skipBlank_skipBlank]

/-- Text that is read as a value does not start like the end of an array. -/
theorem exists_skipBlank_of_value {fuel : Nat} {gs rest : List Glyph} {v : Json}
    (h : value fuel gs = (v.toOutline, rest)) :
    ∃ g tail, skipBlank gs = g :: tail ∧ g ≠ .char ']' := by
  have hbroken : ∀ f : Fault, v.toOutline ≠ .broken f := by
    intro f
    cases v <;> simp [toOutline]
  cases fuel with
  | zero => exact absurd (congrArg Prod.fst h).symm (hbroken _)
  | succ fuel =>
    rw [← value_skipBlank] at h
    cases hs : skipBlank gs with
    | nil =>
      rw [hs] at h
      exact absurd (congrArg Prod.fst h).symm (hbroken _)
    | cons g tail =>
      refine ⟨g, tail, rfl, ?_⟩
      rintro rfl
      rw [hs] at h
      have hend : (value (fuel + 1) (.char ']' :: tail)).1 = .broken (.flaw .noValue) := rfl
      exact absurd ((congrArg Prod.fst h).symm.trans hend) (hbroken _)

theorem elements_first {fuel : Nat} {gs rest : List Glyph} {v : Json}
    (h : value fuel gs = (v.toOutline, rest)) :
    elements (fuel + 1) true gs =
      (.cons v.toOutline (elements fuel false rest).1, (elements fuel false rest).2) := by
  obtain ⟨g, tail, hs, hg⟩ := exists_skipBlank_of_value h
  rw [← value_skipBlank, hs] at h
  rw [elements, hs]
  split
  · next heq => cases heq
  · next heq =>
    cases heq
    exact absurd rfl hg
  · next heq =>
    cases heq
    simp only [if_true, h]
    rfl

theorem elements_next {fuel : Nat} {gs rest : List Glyph} {v : Json}
    (h : value fuel gs = (v.toOutline, rest)) :
    elements (fuel + 1) false (.char ',' :: gs) =
      (.cons v.toOutline (elements fuel false rest).1, (elements fuel false rest).2) := by
  obtain ⟨g, tail, hs, hg⟩ := exists_skipBlank_of_value h
  rw [← value_skipBlank, hs] at h
  rw [elements, skipBlank_char (by decide)]
  split
  · next heq => cases heq
  · next heq => simp at heq
  · next heq =>
    cases heq
    simp only [Bool.false_eq_true, if_false, if_true, hs]
    split
    · next heq => cases heq
    · next heq =>
      cases heq
      exact absurd rfl hg
    · rw [h]
      rfl

theorem members_first (fuel : Nat) {gs tail : List Glyph} (h : skipBlank gs = .char '"' :: tail) :
    members (fuel + 1) true gs = member fuel false tail := by
  simp [members, h]

theorem members_next (fuel : Nat) {gs tail : List Glyph} (h : skipBlank gs = .char '"' :: tail) :
    members (fuel + 1) false (.char ',' :: gs) = member fuel true tail := by
  rw [members, skipBlank_char (by decide)]
  split
  · next heq => cases heq
  · next heq => simp at heq
  · next heq =>
    cases heq
    simp only [Bool.false_eq_true, if_false, if_true, h]

/-! ## Layouts -/

def IsBlank (c : Char) : Prop := c = ' ' ∨ c = '\n' ∨ c = '\t' ∨ c = '\r'

/-- How the text of a value is laid out: what stands in front of the items and members of a level,
and what stands behind the name of a member and the colon. -/
structure Layout where
  gap : Nat → List Char
  colon : List Char
  blank_gap : ∀ level, ∀ c ∈ gap level, IsBlank c
  blank_colon : ∀ c ∈ colon, IsBlank c

namespace Layout

/-- What stands in front of the end of an array or an object. -/
def closing (L : Layout) (level : Nat) (empty : Bool) : List Char :=
  if empty then [] else L.gap level

theorem blank_closing (L : Layout) (level : Nat) (empty : Bool) :
    ∀ c ∈ L.closing level empty, IsBlank c := by
  intro c hc
  rw [closing] at hc
  split at hc
  · cases hc
  · exact L.blank_gap level c hc

mutual

/-- The text of a value in a layout. -/
def text (L : Layout) (level : Nat) : Json → List Char
  | .null => ['n', 'u', 'l', 'l']
  | .bool true => ['t', 'r', 'u', 'e']
  | .bool false => ['f', 'a', 'l', 's', 'e']
  | .number n => (numberText n).toList
  | .string s => (quote s).toList
  | .array items => '[' :: (L.items (level + 1) true items ++ L.closing level items.isEmpty ++ [']'])
  | .object ms =>
    '\x7b' :: (L.members (level + 1) true ms ++ L.closing level ms.isEmpty ++ ['\x7d'])

/-- Items with commas between them, and one in front unless they come first. -/
def items (L : Layout) (level : Nat) (first : Bool) : List Json → List Char
  | [] => []
  | v :: rest =>
    (if first then [] else [',']) ++ L.gap level ++ L.text level v ++ L.items level false rest

/-- Members with commas between them, and one in front unless they come first. -/
def members (L : Layout) (level : Nat) (first : Bool) : List (String × Json) → List Char
  | [] => []
  | (k, v) :: rest =>
    (if first then [] else [',']) ++ L.gap level ++ (quote k).toList ++ ':' :: L.colon ++
      L.text level v ++ L.members level false rest

end

end Layout

theorem skipBlank_append {cs : List Char} (hcs : ∀ c ∈ cs, IsBlank c) (gs : List Glyph) :
    skipBlank (glyphs cs ++ gs) = skipBlank gs := by
  induction cs with
  | nil => rfl
  | cons c cs ih =>
    have hc : c = ' ' ∨ c = '\n' ∨ c = '\t' ∨ c = '\r' := hcs c List.mem_cons_self
    change skipBlank (.char c :: (glyphs cs ++ gs)) = _
    rw [skipBlank, if_pos hc, ih fun d hd => hcs d (List.mem_cons_of_mem _ hd)]

theorem value_append {cs : List Char} (hcs : ∀ c ∈ cs, IsBlank c) (fuel : Nat) (gs : List Glyph) :
    value fuel (glyphs cs ++ gs) = value fuel gs := by
  rw [← value_skipBlank, skipBlank_append hcs, value_skipBlank]

/-- Blanks end a number. -/
theorem endsNumber_append {cs : List Char} (hcs : ∀ c ∈ cs, IsBlank c) {gs : List Glyph}
    (hgs : EndsNumber gs) : EndsNumber (glyphs cs ++ gs) := by
  cases cs with
  | nil => exact hgs
  | cons c cs =>
    rcases hcs c List.mem_cons_self with rfl | rfl | rfl | rfl
    all_goals exact ⟨by decide, by decide, by decide, by decide⟩

/-- What follows an item or a member ends a number before it. -/
theorem endsNumber_items (L : Layout) (level : Nat) (items : List Json) {tail : List Char}
    (htail : ∀ c ∈ tail, IsBlank c) (rest : List Glyph) :
    EndsNumber (glyphs (L.items level false items ++ tail) ++ .char ']' :: rest) := by
  cases items with
  | nil => exact endsNumber_append htail ⟨by decide, by decide, by decide, by decide⟩
  | cons v items => simp [Layout.items, EndsNumber, digitValue?]

@[inherit_doc endsNumber_items]
theorem endsNumber_members (L : Layout) (level : Nat) (ms : List (String × Json)) {tail : List Char}
    (htail : ∀ c ∈ tail, IsBlank c) (rest : List Glyph) :
    EndsNumber (glyphs (L.members level false ms ++ tail) ++ .char '\x7d' :: rest) := by
  cases ms with
  | nil => exact endsNumber_append htail ⟨by decide, by decide, by decide, by decide⟩
  | cons m ms => simp [Layout.members, EndsNumber, digitValue?]

theorem text_ne_nil (L : Layout) (level : Nat) {v : Json} (hv : v.Legible) :
    L.text level v ≠ [] := by
  cases v with
  | number n => exact numberText_ne_nil hv
  | bool b => cases b <;> simp [Layout.text]
  | _ => simp [Layout.text, toList_quote]

mutual

theorem value_text (L : Layout) (level : Nat) (v : Json) (hv : v.Legible) (fuel : Nat)
    (rest : List Glyph) (hfuel : 2 * (L.text level v).length ≤ fuel) (hrest : EndsNumber rest) :
    value fuel (glyphs (L.text level v) ++ rest) = (v.toOutline, rest) := by
  have hpos := List.length_pos_iff.2 (text_ne_nil L level hv)
  obtain ⟨fuel, rfl⟩ : ∃ n, fuel = n + 1 := ⟨fuel - 1, by omega⟩
  cases v with
  | null => simp [Layout.text, value, skipBlank, word, toOutline]
  | bool b => cases b <;> simp [Layout.text, value, skipBlank, word, toOutline]
  | number n => exact value_number hv fuel hrest
  | string s => exact value_quote s fuel rest
  | array items =>
    have htail := L.blank_closing level items.isEmpty
    simp only [Layout.text, List.length_cons, List.length_append] at hfuel
    have hitems := elements_items L (level + 1) items hv true fuel rest htail (by omega)
    have hglyphs : glyphs (L.text level (.array items)) ++ rest = .char '[' ::
        (glyphs (L.items (level + 1) true items ++ L.closing level items.isEmpty) ++
          .char ']' :: rest) := by
      simp [Layout.text]
    rw [hglyphs, value_bracket, hitems, toOutline]
  | object ms =>
    have htail := L.blank_closing level ms.isEmpty
    simp only [Layout.text, List.length_cons, List.length_append] at hfuel
    have hms := members_members L (level + 1) ms hv true fuel rest htail (by omega)
    have hglyphs : glyphs (L.text level (.object ms)) ++ rest = .char '\x7b' ::
        (glyphs (L.members (level + 1) true ms ++ L.closing level ms.isEmpty) ++
          .char '\x7d' :: rest) := by
      simp [Layout.text]
    rw [hglyphs, value_brace, hms, toOutline]

theorem elements_items (L : Layout) (level : Nat) (items : List Json) (hitems : LegibleItems items)
    (first : Bool) (fuel : Nat) {tail : List Char} (rest : List Glyph)
    (htail : ∀ c ∈ tail, IsBlank c) (hfuel : 2 * (L.items level first items).length + 1 ≤ fuel) :
    elements fuel first (glyphs (L.items level first items ++ tail) ++ .char ']' :: rest) =
      (toElements items, rest) := by
  -- An item takes two steps, one for the list and one for itself, and at least one character.
  obtain ⟨fuel, rfl⟩ : ∃ n, fuel = n + 1 := ⟨fuel - 1, by omega⟩
  cases items with
  | nil =>
    have hend : skipBlank (glyphs tail ++ .char ']' :: rest) = .char ']' :: rest := by
      rw [skipBlank_append htail, skipBlank_char (by decide)]
    rw [Layout.items, List.nil_append, elements, hend]
    rfl
  | cons v items =>
    obtain ⟨hv, hrest⟩ := hitems
    have hpos := List.length_pos_iff.2 (text_ne_nil L level hv)
    simp only [Layout.items, List.length_append] at hfuel
    have hvalue := value_text L level v hv fuel _ (by omega)
      (endsNumber_items L level items htail rest)
    rw [← value_append (L.blank_gap level)] at hvalue
    have hnext := elements_items L level items hrest false fuel rest htail (by omega)
    cases first with
    | true =>
      have hglyphs : glyphs (L.items level true (v :: items) ++ tail) ++ .char ']' :: rest =
          glyphs (L.gap level) ++ (glyphs (L.text level v) ++
            (glyphs (L.items level false items ++ tail) ++ .char ']' :: rest)) := by
        simp [Layout.items]
      rw [hglyphs, elements_first hvalue, hnext]
      rfl
    | false =>
      have hglyphs : glyphs (L.items level false (v :: items) ++ tail) ++ .char ']' :: rest =
          .char ',' :: (glyphs (L.gap level) ++ (glyphs (L.text level v) ++
            (glyphs (L.items level false items ++ tail) ++ .char ']' :: rest))) := by
        simp [Layout.items]
      rw [hglyphs, elements_next hvalue, hnext]
      rfl

theorem members_members (L : Layout) (level : Nat) (ms : List (String × Json))
    (hms : LegibleMembers ms) (first : Bool) (fuel : Nat) {tail : List Char} (rest : List Glyph)
    (htail : ∀ c ∈ tail, IsBlank c) (hfuel : 2 * (L.members level first ms).length + 1 ≤ fuel) :
    members fuel first (glyphs (L.members level first ms ++ tail) ++ .char '\x7d' :: rest) =
      (toMembers ms, rest) := by
  obtain ⟨fuel, rfl⟩ : ∃ n, fuel = n + 1 := ⟨fuel - 1, by omega⟩
  cases ms with
  | nil =>
    have hend : skipBlank (glyphs tail ++ .char '\x7d' :: rest) = .char '\x7d' :: rest := by
      rw [skipBlank_append htail, skipBlank_char (by decide)]
    rw [Layout.members, List.nil_append, members, hend]
    rfl
  | cons m ms =>
    obtain ⟨k, v⟩ := m
    obtain ⟨hv, hrest⟩ := hms
    simp only [Layout.members, List.length_append, toList_quote, List.length_cons] at hfuel
    obtain ⟨fuel, rfl⟩ : ∃ n, fuel = n + 1 := ⟨fuel - 1, by omega⟩
    -- The member behind the gap and the opening quote of its name.
    let inner := glyphs (k.toList.flatMap escape) ++ .char '"' :: .char ':' :: (glyphs L.colon ++
      (glyphs (L.text level v) ++
        (glyphs (L.members level false ms ++ tail) ++ .char '\x7d' :: rest)))
    have hinner : skipBlank (glyphs (L.gap level) ++ .char '"' :: inner) = .char '"' :: inner := by
      rw [skipBlank_append (L.blank_gap level), skipBlank_char (by decide)]
    have hmember : ∀ comma, member (fuel + 1) comma inner = (toMembers ((k, v) :: ms), rest) := by
      intro comma
      have hvalue := value_text L level v hv fuel _ (by omega)
        (endsNumber_members L level ms htail rest)
      rw [← value_append L.blank_colon] at hvalue
      have hnext := members_members L level ms hrest false fuel rest htail (by omega)
      rw [member, quoted_flatMap_escape]
      simp only [skipBlank_char (c := ':') (by decide), hvalue, hnext]
      rfl
    cases first with
    | true =>
      have hglyphs : glyphs (L.members level true ((k, v) :: ms) ++ tail) ++ .char '\x7d' :: rest =
          glyphs (L.gap level) ++ .char '"' :: inner := by
        simp [Layout.members, toList_quote, inner]
      rw [hglyphs, members_first (fuel + 1) hinner]
      exact hmember false
    | false =>
      have hglyphs : glyphs (L.members level false ((k, v) :: ms) ++ tail) ++ .char '\x7d' :: rest =
          .char ',' :: (glyphs (L.gap level) ++ .char '"' :: inner) := by
        simp [Layout.members, toList_quote, inner]
      rw [hglyphs, members_next (fuel + 1) hinner]
      exact hmember true

end

/-- The outline of the text of a legible value is the value, and nothing follows it. -/
theorem outline_text (L : Layout) (level : Nat) {v : Json} (hv : v.Legible) :
    outline (glyphs (L.text level v)) = (v.toOutline, false) := by
  have hvalue := value_text L level v hv (3 * (glyphs (L.text level v)).length + 3) []
    (by simp only [List.length_map]; omega) trivial
  rw [List.append_nil] at hvalue
  simp only [outline]
  rw [hvalue]
  rfl

/-! ## Compact and indented text -/

namespace Layout

def compact : Layout := ⟨fun _ => [], [], by simp, by simp⟩

def indented : Layout where
  gap level := (newline level).toList
  colon := [' ']
  blank_gap level c hc := by
    simp only [newline, String.toList_append, String.toList_ofList, List.mem_append,
      List.mem_replicate] at hc
    rcases hc with hc | hc
    · exact .inr (.inl (by simpa using hc))
    · exact .inl hc.2
  blank_colon c hc := .inl (List.mem_singleton.1 hc)

mutual

theorem text_compact (level : Nat) (v : Json) : compact.text level v = v.compact.toList := by
  cases v with
  | bool b => cases b <;> simp [text, Json.compact]
  | array items =>
    have hend : compact.closing level items.isEmpty = [] := by simp [closing, compact]
    rw [text, items_compact, hend]
    simp [Json.compact]
  | object ms =>
    have hend : compact.closing level ms.isEmpty = [] := by simp [closing, compact]
    rw [text, members_compact, hend]
    simp [Json.compact]
  | _ => simp [text, Json.compact]

theorem items_compact (level : Nat) (first : Bool) (items : List Json) :
    compact.items level first items = (compactItems first items).toList := by
  cases items with
  | nil => rfl
  | cons v items =>
    rw [Layout.items, text_compact, items_compact]
    cases first <;> simp [compactItems, compact]

theorem members_compact (level : Nat) (first : Bool) (ms : List (String × Json)) :
    compact.members level first ms = (compactMembers first ms).toList := by
  cases ms with
  | nil => rfl
  | cons m ms =>
    rw [Layout.members, text_compact, members_compact]
    cases first <;> simp [compactMembers, compact]

end

mutual

theorem text_indented (level : Nat) (v : Json) :
    indented.text level v = (v.pretty level).toList := by
  cases v with
  | bool b => cases b <;> simp [text, pretty]
  | array items =>
    rw [text, items_indented]
    cases items <;> simp [pretty, prettyItems, closing, indented]
  | object ms =>
    rw [text, members_indented]
    cases ms <;> simp [pretty, prettyMembers, closing, indented]
  | _ => simp [text, pretty]

theorem items_indented (level : Nat) (first : Bool) (items : List Json) :
    indented.items level first items = (prettyItems level first items).toList := by
  cases items with
  | nil => rfl
  | cons v items =>
    rw [Layout.items, text_indented, items_indented]
    cases first <;> simp [prettyItems, indented]

theorem members_indented (level : Nat) (first : Bool) (ms : List (String × Json)) :
    indented.members level first ms = (prettyMembers level first ms).toList := by
  cases ms with
  | nil => rfl
  | cons m ms =>
    rw [Layout.members, text_indented, members_indented]
    cases first <;> simp [prettyMembers, indented]

end

end Layout

/-! ## Readers -/

variable {α : Type} (read : Origin → Outline → Decoded α) {v : Json}

/-- What is read from a text is read from its outline. -/
theorem read_of_decodeGlyphs {gs : List Glyph} {a : α} (h : decodeGlyphs read gs = .ok a) :
    read .start (outline gs).1 = .ok a := by
  rw [decodeGlyphs] at h
  generalize outline gs = found at h ⊢
  obtain ⟨v, more⟩ := found
  dsimp only at h ⊢
  rcases hread : read .start v with e | a'
  · rw [hread] at h
    cases h
  · rw [hread] at h
    cases more with
    | true => cases h
    | false => exact h

/-- A reader reads from the text of a legible value what it reads from the value. -/
theorem decodeGlyphs_text (L : Layout) (level : Nat) (hv : v.Legible) :
    decodeGlyphs read (glyphs (L.text level v)) = read .start v.toOutline := by
  rw [decodeGlyphs, outline_text L level hv]
  exact bind_pure _

theorem decodeText_compact (hv : v.Legible) :
    decodeText read v.compact = read .start v.toOutline := by
  have htext := decodeGlyphs_text read .compact 0 hv
  rwa [Layout.text_compact] at htext

theorem decodeText_pretty (level : Nat) (hv : v.Legible) :
    decodeText read (v.pretty level) = read .start v.toOutline := by
  have htext := decodeGlyphs_text read .indented level hv
  rwa [Layout.text_indented] at htext

theorem decodeBytes_toUTF8 (s : String) : decodeBytes read s.toUTF8 = decodeText read s := by
  rw [decodeBytes, Glyph.ofBytes_toUTF8]
  rfl

@[inherit_doc decodeGlyphs_text]
theorem decodeBytes_compact (hv : v.Legible) :
    decodeBytes read v.compact.toUTF8 = read .start v.toOutline := by
  rw [decodeBytes_toUTF8, decodeText_compact read hv]

@[inherit_doc decodeGlyphs_text]
theorem decodeBytes_pretty (level : Nat) (hv : v.Legible) :
    decodeBytes read (v.pretty level).toUTF8 = read .start v.toOutline := by
  rw [decodeBytes_toUTF8, decodeText_pretty read level hv]

/-! ## Words -/

theorem readNatural_ofWord {bound : Nat} (expected : String) {n : UInt64} (hn : n.toNat ≤ bound) :
    readNatural bound expected (ofWord n).toOutline = .ok n.toNat := by
  have hrange : (0 : Int) ≤ n.toNat ∧ (n.toNat : Int) ≤ bound := ⟨by omega, by omega⟩
  simp [ofWord, toOutline, readNatural, Integer.ofWord, hrange]

theorem toNat_le_size (n : UInt64) : n.toNat ≤ UInt64.size - 1 := by
  have := n.toNat_lt
  have hsize : UInt64.size = 2 ^ 64 := rfl
  omega

@[simp] theorem readWord_ofWord (o : Origin) (n : UInt64) :
    readWord o (ofWord n).toOutline = .ok n := by
  rw [readWord, readNatural_ofWord "u64" (toNat_le_size n)]
  simp [Except.map]

@[simp] theorem readSize_ofWord (o : Origin) (n : UInt64) :
    readSize o (ofWord n).toOutline = .ok n := by
  rw [readSize, readNatural_ofWord "usize" (toNat_le_size n)]
  simp [Except.map]

@[simp] theorem readWord32_ofWord (o : Origin) (n : UInt32) :
    readWord32 o (ofWord n.toUInt64).toOutline = .ok n := by
  have hn : n.toUInt64.toNat ≤ UInt32.size - 1 := by
    have := n.toNat_lt
    have hsize : UInt32.size = 2 ^ 32 := rfl
    simp only [UInt32.toNat_toUInt64]
    omega
  rw [readWord32, readNatural_ofWord "u32" hn]
  simp [Except.map]

theorem decodeBytes_ofWord (n : UInt64) :
    decodeBytes readJson (ofWord n).compact.toUTF8 = .ok (ofWord n) := by
  rw [decodeBytes_compact readJson (by simp [ofWord, Legible, LegibleNumber])]
  rfl

end CodeGraph.Json
