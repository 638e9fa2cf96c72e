/-!
# Glyphs

The contents of a file are bytes, and a reader of text has to say something about any bytes. A
glyph is a character where the bytes spell one and a stray byte where they do not, so every byte
sequence is a list of glyphs and a text is a list of glyphs without strays.

The one law a reader needs is `ofBytes_toUTF8`: the glyphs of an encoded text are its characters.
-/

namespace CodeGraph.Text

/-- A character, or a byte that belongs to none. -/
inductive Glyph where
  | char (c : Char)
  | stray (b : UInt8)
  deriving DecidableEq, Repr

namespace Glyph

/-- How many bytes a glyph was read from. -/
def byteSize : Glyph → Nat
  | .char c => c.utf8Size
  | .stray _ => 1

def ofString (s : String) : List Glyph :=
  s.toList.map .char

/-- The continuation bits of a byte in `0x80..0xBF`. -/
private def continuation? (b : UInt8) : Option Nat :=
  if 0x80 ≤ b ∧ b ≤ 0xBF then some (b.toNat - 0x80) else none

/-- A code point with the bytes after it, unless it is a surrogate, out of range or written with
more bytes than it needs. -/
private def scalar? (least code : Nat) : Option Char :=
  if h : code.isValidChar then
    if least ≤ code then some (Char.ofNatAux code h) else none
  else none

/-- The character at the front of a byte sequence and the number of bytes it takes. -/
private def first? : List UInt8 → Option (Char × Nat)
  | [] => none
  | a :: rest =>
    if a < 0x80 then (scalar? 0 a.toNat).map (·, 1)
    else if 0xC2 ≤ a ∧ a ≤ 0xDF then
      match rest with
      | b :: _ => do
        let b ← continuation? b
        (scalar? 0x80 ((a.toNat - 0xC0) * 64 + b)).map (·, 2)
      | _ => none
    else if 0xE0 ≤ a ∧ a ≤ 0xEF then
      match rest with
      | b :: c :: _ => do
        let b ← continuation? b
        let c ← continuation? c
        (scalar? 0x800 (((a.toNat - 0xE0) * 64 + b) * 64 + c)).map (·, 3)
      | _ => none
    else if 0xF0 ≤ a ∧ a ≤ 0xF4 then
      match rest with
      | b :: c :: d :: _ => do
        let b ← continuation? b
        let c ← continuation? c
        let d ← continuation? d
        (scalar? 0x10000 ((((a.toNat - 0xF0) * 64 + b) * 64 + c) * 64 + d)).map (·, 4)
      | _ => none
    else none

/-- Glyph by glyph, skipping the bytes that the last character has already taken. -/
private def scan : Nat → List UInt8 → List Glyph
  | _, [] => []
  | skip + 1, _ :: rest => scan skip rest
  | 0, b :: rest =>
    match first? (b :: rest) with
    | some (c, n) => .char c :: scan (n - 1) rest
    | none => .stray b :: scan 0 rest

/-- The glyphs of a byte sequence. -/
def ofBytes (bytes : ByteArray) : List Glyph :=
  match String.fromUTF8? bytes with
  | some s => ofString s
  | none => scan 0 bytes.toList

theorem fromUTF8?_toUTF8 (s : String) : String.fromUTF8? s.toUTF8 = some s := by
  simp only [String.fromUTF8?, String.toUTF8_eq_toByteArray, dif_pos s.isValidUTF8]
  rfl

/-- The glyphs of an encoded text are its characters. -/
theorem ofBytes_toUTF8 (s : String) : ofBytes s.toUTF8 = ofString s := by
  simp only [ofBytes, fromUTF8?_toUTF8]

end Glyph

end CodeGraph.Text
