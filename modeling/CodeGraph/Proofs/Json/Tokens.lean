import CodeGraph.Json.Outline
import CodeGraph.Json.Printer

/-!
# Reading numbers and strings that were written

The text of an integer is read as the integer where no digit, point or exponent follows it, and the
text of a string is read as the string.

* `numberOutline_integer`: reading the text of an integer.
* `quoted_flatMap_escape`: reading the text of a string.
-/

namespace CodeGraph.Json

open CodeGraph.Text

/-- The glyphs of characters. -/
abbrev glyphs (cs : List Char) : List Glyph := cs.map .char

/-- Whether a number ends before these glyphs. -/
def EndsNumber : List Glyph → Prop
  | .char c :: _ => digitValue? (.char c) = none ∧ c ≠ '.' ∧ c ≠ 'e' ∧ c ≠ 'E'
  | _ => True

/-! ## Integers -/

theorem digitValue?_of_isDigit {c : Char} (h : c.isDigit = true) :
    digitValue? (.char c) = some (c.toNat - '0'.toNat) := by
  have hrange : '0' ≤ c ∧ c ≤ '9' := by
    simpa [Char.isDigit, Char.le_def] using h
  simp [digitValue?, hrange]

theorem digits_of_endsNumber {rest : List Glyph} (hrest : EndsNumber rest) :
    digits rest = ([], rest) := by
  cases rest with
  | nil => rfl
  | cons g rest =>
    cases g with
    | stray b => rfl
    | char c => rw [digits, hrest.1]

theorem digits_append {cs : List Char} (hcs : ∀ c ∈ cs, c.isDigit = true) {rest : List Glyph}
    (hrest : digits rest = ([], rest)) :
    digits (glyphs cs ++ rest) = (cs.map fun c => c.toNat - '0'.toNat, rest) := by
  induction cs with
  | nil => exact hrest
  | cons c cs ih =>
    have hc := digitValue?_of_isDigit (hcs c List.mem_cons_self)
    have htail := ih fun d hd => hcs d (List.mem_cons_of_mem _ hd)
    change digits (.char c :: (glyphs cs ++ rest)) = _
    rw [digits, hc, htail]
    rfl

theorem exponent_of_endsNumber {rest : List Glyph} (hrest : EndsNumber rest) :
    exponent rest = .ok (none, rest) := by
  cases rest with
  | nil => rfl
  | cons g rest =>
    cases g with
    | stray b => rfl
    | char c =>
      obtain ⟨-, -, he, hE⟩ := hrest
      simp [exponent, he, hE]

theorem head?_toDigits_ne_zero {n : Nat} (hn : 0 < n) : (Nat.toDigits 10 n).head? ≠ some '0' := by
  induction n using Nat.strongRecOn with
  | ind n ih =>
    by_cases hsmall : n < 10
    · rw [Nat.toDigits_of_lt_base hsmall]
      simpa using Nat.ne_of_gt hn
    · have hle : 10 ≤ n := Nat.le_of_not_lt hsmall
      have hfirst := ih (n / 10) (Nat.div_lt_self hn (by decide)) (by omega)
      rw [Nat.toDigits_of_base_le (by decide) hle, List.head?_append]
      cases hhead : (Nat.toDigits 10 (n / 10)).head? with
      | none => exact absurd (List.head?_eq_none_iff.1 hhead) Nat.toDigits_ne_nil
      | some c => simpa [hhead] using hfirst

/-- The values of the decimal digits of a natural number. -/
def decimals (n : Nat) : List Nat := (Nat.toDigits 10 n).map fun c => c.toNat - '0'.toNat

theorem isDigit_of_mem_toDigits_ten {n : Nat} {c : Char} (hc : c ∈ Nat.toDigits 10 n) :
    c.isDigit = true :=
  Nat.isDigit_of_mem_toDigits (by decide) (by decide) hc

theorem eq_zero_of_isDigit {c : Char} (hc : c.isDigit = true) (h : c.toNat - '0'.toNat = 0) :
    c = '0' := by
  have hrange : 48 ≤ c.toNat ∧ c.toNat ≤ 57 := by
    simpa [Char.isDigit, UInt32.le_iff_toNat_le] using hc
  have hnat : c.toNat = '0'.toNat := by
    have h48 : '0'.toNat = 48 := rfl
    omega
  exact Char.toNat_inj.1 hnat

/-- No zero stands in front of other digits. -/
theorem head?_decimals_ne_zero {n : Nat} (hn : 0 < n) : (decimals n).head? ≠ some 0 := by
  intro h
  rw [decimals, List.head?_map, Option.map_eq_some_iff] at h
  obtain ⟨c, hc, hzero⟩ := h
  have hmem : c ∈ Nat.toDigits 10 n := List.mem_of_head? hc
  rw [eq_zero_of_isDigit (isDigit_of_mem_toDigits_ten hmem) hzero] at hc
  exact head?_toDigits_ne_zero hn hc

theorem value_decimals (n : Nat) : Numeral.value (decimals n) = n := by
  have hfold : ∀ (l : List Char) (k : Nat), (l.map fun c => c.toNat - '0'.toNat).foldl
      (fun n d => n * 10 + d) k = Nat.ofDigitChars 10 l k := by
    intro l
    induction l with
    | nil => intro k; rfl
    | cons c l ih =>
      intro k
      rw [List.map_cons, List.foldl_cons, ih, Nat.ofDigitChars_cons, Nat.mul_comm]
  rw [Numeral.value, decimals, hfold]
  exact Nat.ofDigitChars_ten_toDigits

/-- A digit, a point and further digits are a numeral where a number ends behind them. -/
theorem numeral_point (negative : Bool) {d : Char} (hd : d.isDigit = true) {fraction : List Char}
    (hfraction : ∀ c ∈ fraction, c.isDigit = true) (hsome : fraction ≠ []) {rest : List Glyph}
    (hrest : EndsNumber rest) :
    numeral negative (.char d :: .char '.' :: (glyphs fraction ++ rest)) =
      .ok (⟨negative, [d.toNat - '0'.toNat],
        some (fraction.map fun c => c.toNat - '0'.toNat), none⟩, rest) := by
  have hwhole : digits (.char d :: .char '.' :: (glyphs fraction ++ rest)) =
      ([d.toNat - '0'.toNat], .char '.' :: (glyphs fraction ++ rest)) :=
    @digits_append [d] (by simpa using hd) _ rfl
  have hdigits := digits_append hfraction (digits_of_endsNumber hrest)
  have hne : (fraction.map fun c => c.toNat - '0'.toNat) ≠ [] := by simpa using hsome
  simp only [numeral, hwhole, hdigits, hne, if_false, exponent_of_endsNumber hrest]
  rw [if_neg (List.cons_ne_nil _ _), if_neg fun h => h.2 rfl]
  rfl

theorem numeral_toDigits (negative : Bool) (n : Nat) {rest : List Glyph}
    (hrest : EndsNumber rest) :
    numeral negative (glyphs (Nat.toDigits 10 n) ++ rest) =
      .ok (⟨negative, decimals n, none, none⟩, rest) := by
  have hdigits : digits (glyphs (Nat.toDigits 10 n) ++ rest) = (decimals n, rest) :=
    digits_append (fun c hc => isDigit_of_mem_toDigits_ten hc) (digits_of_endsNumber hrest)
  have hsome : decimals n ≠ [] := by simp [decimals]
  have hzero : ¬((decimals n).head? = some 0 ∧ (decimals n).length ≠ 1) := by
    rintro ⟨hhead, hlength⟩
    rcases Nat.eq_zero_or_pos n with rfl | hn
    · exact hlength rfl
    · exact head?_decimals_ne_zero hn hhead
  simp only [numeral, hdigits, hsome, hzero, if_false]
  split
  · next hpoint =>
    exact absurd rfl (hrest.2.1)
  · rw [exponent_of_endsNumber hrest]
    rfl

theorem number?_decimals (i : Integer) :
    (Numeral.mk (decide (i.val < 0)) (decimals i.val.natAbs) none none).number? =
      some (.int i) := by
  have hsign : (if i.val < 0 then -(i.val.natAbs : Int) else i.val.natAbs) = i.val := by
    split <;> omega
  have hvalue : Integer.ofInt? i.val = some i := by
    simp [Integer.ofInt?, i.lower, i.upper]
  have hzero : ¬(i.val < 0 ∧ (i.val.natAbs : Int) = 0) := by omega
  simp only [Numeral.number?, value_decimals, decide_eq_true_eq, hzero, if_false, hsign, hvalue]

/-- The digits of an integer after its sign are read as the integer. -/
theorem numberOutline_integer (i : Integer) {rest : List Glyph} (hrest : EndsNumber rest) :
    numberOutline (decide (i.val < 0)) (glyphs (Nat.toDigits 10 i.val.natAbs) ++ rest) =
      (.number (.int i), rest) := by
  simp only [numberOutline, numeral_toDigits _ _ hrest, number?_decimals]

theorem toList_toString_int (i : Int) :
    (toString i).toList = (if i < 0 then ['-'] else []) ++ Nat.toDigits 10 i.natAbs := by
  cases i with
  | ofNat n => simp [toString, Int.repr]
  | negSucc n =>
    have hneg : Int.negSucc n < 0 := Int.negSucc_lt_zero n
    simp [toString, Int.repr, hneg]

/-! ## Strings -/

/-- The piece that the text of a character is read as. -/
def pieceOf (c : Char) : Piece :=
  if c.toNat < 0x20 ∧ c ≠ '\x08' ∧ c ≠ '\t' ∧ c ≠ '\n' ∧ c ≠ '\x0c' ∧ c ≠ '\r' then .unit c.toNat
  else .char c

theorem hexValue?_hexDigit (n : Nat) : Text.hexValue? (hexDigit n) = some (n % 16) := by
  have hall : ∀ m < 16, Text.hexValue? (Nat.digitChar m) = some m := by decide
  exact hall (n % 16) (Nat.mod_lt n (by decide))

/-- The four digits of a control character spell its code. -/
theorem hexUnit?_control {n : Nat} (hn : n < 0x20) :
    hexUnit? (.char '0') (.char '0') (.char (hexDigit (n / 16))) (.char (hexDigit n)) = some n := by
  have hzero : Text.hexValue? '0' = some 0 := by decide
  simp only [hexUnit?, hexValue?, hexValue?_hexDigit, hzero]
  have hcode : ((0 * 16 + 0) * 16 + n / 16 % 16) * 16 + n % 16 = n := by omega
  exact congrArg some hcode

theorem pieces_escape (c : Char) (rest : List Glyph) :
    pieces (glyphs (escape c) ++ rest) = (pieceOf c).andThen (pieces rest) := by
  unfold escape
  split
  · next h => subst h; rfl
  split
  · next h => subst h; rfl
  split
  · next h => subst h; rfl
  split
  · next h => subst h; rfl
  split
  · next h => subst h; rfl
  split
  · next h => subst h; rfl
  split
  · next h => subst h; rfl
  split
  · next hcontrol =>
    have hpiece : pieceOf c = .unit c.toNat := by simp [pieceOf, *]
    rw [hpiece]
    simp [pieces, hexUnit?_control hcontrol]
  · next hcontrol =>
    have hpiece : pieceOf c = .char c := by simp [pieceOf, hcontrol]
    rw [hpiece]
    simp [pieces, *]

theorem characters_pieceOf (atEnd : Break) (cs : List Char) :
    characters atEnd (cs.map pieceOf) = .ok (cs, true) := by
  induction cs with
  | nil => rfl
  | cons c cs ih =>
    rw [List.map_cons, pieceOf]
    split
    · next h =>
      have hsmall : c.toNat < 0xD800 ∨ 0xE000 ≤ c.toNat := by omega
      rw [characters.eq_def]
      simp [hsmall, ih, Except.map]
    · rw [characters, ih]
      rfl

theorem pieces_flatMap_escape (cs : List Char) (rest : List Glyph) :
    pieces (glyphs (cs.flatMap escape) ++ .char '"' :: rest) = (cs.map pieceOf, .closed rest) := by
  induction cs with
  | nil => rfl
  | cons c cs ih =>
    rw [List.flatMap_cons, glyphs, List.map_append, List.append_assoc, pieces_escape, ih]
    rfl

/-- The text of a string is read as the string. -/
theorem quoted_flatMap_escape (s : String) (rest : List Glyph) :
    quoted (glyphs (s.toList.flatMap escape) ++ .char '"' :: rest) = .ok (.ok s, rest) := by
  simp only [quoted, pieces_flatMap_escape, characters_pieceOf, String.ofList_toList]

end CodeGraph.Json
