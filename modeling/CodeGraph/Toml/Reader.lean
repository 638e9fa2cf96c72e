import CodeGraph.Toml.Definition

/-!
# Reading settings

A settings file is a sequence of lines: headers, and names with their values. A reader takes what
it reads from the front of the text and gives the rest; it fails without a reason, since nobody
asks for one. `Toml.ofText?` reads a whole file.

Values in brackets and braces nest up to `deepest` levels, and a dotted name has at most as many
parts.
-/

namespace CodeGraph.Toml

/-- How deep arrays and tables in braces nest, and how many parts a name has. -/
def deepest : Nat := 79

/-! ## Blanks and line ends -/

/-- Whether a character is a blank inside a line. -/
def isBlank (c : Char) : Bool :=
  c == ' ' || c == '\t'

def skipBlanks (cs : List Char) : List Char :=
  cs.dropWhile isBlank

/-- Whether a character may stand in a comment, and in a string unless it delimits it. -/
def isPrintable (c : Char) : Bool :=
  c == '\t' || (0x20 ≤ c.toNat && c.toNat != 0x7f)

/-- A line break at the front. -/
def lineBreak? : List Char → Option (List Char)
  | '\n' :: cs => some cs
  | '\r' :: '\n' :: cs => some cs
  | _ => none

/-- The text after a comment, if there is one. -/
def skipComment : List Char → List Char
  | '#' :: cs => cs.dropWhile isPrintable
  | cs => cs

/-- The end of a line or of the text, after blanks and a comment. -/
def lineEnd? (cs : List Char) : Option (List Char) :=
  match skipComment (skipBlanks cs) with
  | [] => some []
  | cs => lineBreak? cs

/-- The text after blanks, comments and line breaks. -/
def skipLines : Nat → List Char → List Char
  | 0, cs => cs
  | fuel + 1, cs =>
    match lineBreak? (skipComment (skipBlanks cs)) with
    | some cs => skipLines fuel cs
    | none => skipBlanks cs

/-! ## Strings -/

/-- Whether a number is the code point of a character. -/
def charOf? (n : Nat) : Option Char :=
  if n.isValidChar then some (Char.ofNat n) else none

def hexNumber? (cs : List Char) : Option Nat :=
  cs.foldlM (fun n c => (Text.hexValue? c).map (n * 16 + ·)) 0

/-- The character that a one-letter escape stands for. -/
def unescape? : Char → Option Char
  | '"' => some '"'
  | '\\' => some '\\'
  | 'b' => some '\x08'
  | 'f' => some '\x0c'
  | 'n' => some '\n'
  | 'r' => some '\r'
  | 't' => some '\t'
  | _ => none

/-- Puts a character in front of a string that is being read. -/
def andThen (c : Char) (r : Option (List Char × List Char)) : Option (List Char × List Char) :=
  r.map fun (s, rest) => (c :: s, rest)

/-- A string between quotes, after the first quote. -/
def quotedString : List Char → Option (List Char × List Char)
  | '"' :: cs => some ([], cs)
  | '\\' :: 'u' :: a :: b :: c :: d :: cs => do
    andThen (← charOf? (← hexNumber? [a, b, c, d])) (quotedString cs)
  | '\\' :: 'U' :: a :: b :: c :: d :: e :: f :: g :: h :: cs => do
    andThen (← charOf? (← hexNumber? [a, b, c, d, e, f, g, h])) (quotedString cs)
  | '\\' :: e :: cs => do andThen (← unescape? e) (quotedString cs)
  | c :: cs => if isPrintable c then andThen c (quotedString cs) else none
  | [] => none

/-- A string between single quotes, after the first one. -/
def literalString : List Char → Option (List Char × List Char)
  | '\'' :: cs => some ([], cs)
  | c :: cs => if isPrintable c then andThen c (literalString cs) else none
  | [] => none

/-- Whether a line break, and nothing but blanks before it, is at the front. -/
def breaksLine (cs : List Char) : Bool :=
  (lineBreak? (skipBlanks cs)).isSome

/-- A string between three quotes, after the first three. After a backslash at the end of a line
blanks and line breaks are passed over (`joining`). -/
def threefoldString (joining : Bool) : List Char → Option (List Char × List Char)
  | '"' :: '"' :: '"' :: '"' :: '"' :: '"' :: _ => none
  | '"' :: '"' :: '"' :: '"' :: '"' :: cs => some (['"', '"'], cs)
  | '"' :: '"' :: '"' :: '"' :: cs => some (['"'], cs)
  | '"' :: '"' :: '"' :: cs => some ([], cs)
  | '\\' :: 'u' :: a :: b :: c :: d :: cs => do
    andThen (← charOf? (← hexNumber? [a, b, c, d])) (threefoldString false cs)
  | '\\' :: 'U' :: a :: b :: c :: d :: e :: f :: g :: h :: cs => do
    andThen (← charOf? (← hexNumber? [a, b, c, d, e, f, g, h])) (threefoldString false cs)
  | '\\' :: e :: cs =>
    match unescape? e with
    | some c => andThen c (threefoldString false cs)
    | none => if breaksLine (e :: cs) then threefoldString true (e :: cs) else none
  | '\r' :: '\n' :: cs =>
    if joining then threefoldString true cs else andThen '\n' (threefoldString false cs)
  | c :: cs =>
    if joining && (isBlank c || c == '\n') then threefoldString true cs
    else if isPrintable c || c == '\n' then andThen c (threefoldString false cs)
    else none
  | [] => none

/-- A string between three single quotes, after the first three. -/
def threefoldLiteral : List Char → Option (List Char × List Char)
  | '\'' :: '\'' :: '\'' :: '\'' :: '\'' :: '\'' :: _ => none
  | '\'' :: '\'' :: '\'' :: '\'' :: '\'' :: cs => some (['\'', '\''], cs)
  | '\'' :: '\'' :: '\'' :: '\'' :: cs => some (['\''], cs)
  | '\'' :: '\'' :: '\'' :: cs => some ([], cs)
  | '\r' :: '\n' :: cs => andThen '\n' (threefoldLiteral cs)
  | c :: cs => if isPrintable c || c == '\n' then andThen c (threefoldLiteral cs) else none
  | [] => none

/-- The text without a line break at its front. -/
def withoutFirstBreak (cs : List Char) : List Char :=
  (lineBreak? cs).getD cs

def scanString (cs : List Char) : Option (String × List Char) :=
  let found :=
    match cs with
    | '"' :: '"' :: '"' :: cs => threefoldString false (withoutFirstBreak cs)
    | '"' :: cs => quotedString cs
    | '\'' :: '\'' :: '\'' :: cs => threefoldLiteral (withoutFirstBreak cs)
    | '\'' :: cs => literalString cs
    | _ => none
  found.map fun (s, rest) => (String.ofList s, rest)

/-! ## Numbers -/

/-- Digits of a class at the front, with single underscores between them. -/
def scanDigits (isDigit : Char → Bool) : List Char → Option (List Char × List Char)
  | [] => none
  | [c] => if isDigit c then some ([c], []) else none
  | c :: '_' :: d :: cs =>
    if !isDigit c then none
    else if isDigit d then (scanDigits isDigit (d :: cs)).map fun (ds, rest) => (c :: ds, rest)
    else some ([c], '_' :: d :: cs)
  | c :: d :: cs =>
    if !isDigit c then none
    else if isDigit d then (scanDigits isDigit (d :: cs)).map fun (ds, rest) => (c :: ds, rest)
    else some ([c], d :: cs)

/-- The number that digits of a base spell. -/
def digitsValue (base : Nat) (ds : List Char) : Nat :=
  ds.foldl (fun n d => n * base + (Text.hexValue? d).getD 0) 0

def wordOf? (i : Int) : Option Int64 :=
  if -9223372036854775808 ≤ i ∧ i < 9223372036854775808 then some (Int64.ofInt i) else none

/-- An integer in another base than ten, after its first two characters. -/
def scanBased (base : Nat) (isDigit : Char → Bool) (cs : List Char) :
    Option (Toml × List Char) := do
  let (ds, rest) ← scanDigits isDigit cs
  return (.integer (← wordOf? (digitsValue base ds)), rest)

def scanSign : List Char → Bool × List Char
  | '+' :: cs => (false, cs)
  | '-' :: cs => (true, cs)
  | cs => (false, cs)

/-- The whole part of a number: digits that do not start with a needless zero. -/
def scanWhole : List Char → Option (List Char × List Char)
  | '0' :: cs => some (['0'], cs)
  | cs => scanDigits Char.isDigit cs

/-- The digits after a point, if there are any. -/
def scanFraction : List Char → Option (List Char × List Char)
  | '.' :: cs => scanDigits Char.isDigit cs
  | _ => none

/-- An exponent, if there is one. -/
def scanExponent : List Char → Option (Int × List Char)
  | c :: cs =>
    if c = 'e' ∨ c = 'E' then do
      let (down, cs) := scanSign cs
      let (ds, rest) ← scanDigits Char.isDigit cs
      let n : Int := digitsValue 10 ds
      return (if down then -n else n, rest)
    else none
  | [] => none

/-- The double nearest to `significand * 10 ^ exponent`. -/
def nearest (significand : Nat) (exponent : Int) : Float :=
  let size : Int := (Nat.toDigits 10 significand).length + exponent
  if significand = 0 ∨ size < -400 then 0.0
  else if 400 < size then 1.0 / 0.0
  else Float.ofScientific significand (exponent < 0) exponent.natAbs

/-- The double of a numeral. A positive one has to be finite. -/
def doubleOf? (negative : Bool) (whole fraction : List Char) (exponent : Int) : Option Toml :=
  let x := nearest (digitsValue 10 (whole ++ fraction)) (exponent - fraction.length)
  if negative then some (.double (-x)) else if x.isInf then none else some (.double x)

/-- A decimal number at the front. -/
def scanDecimal (cs : List Char) : Option (Toml × List Char) := do
  let (negative, cs) := scanSign cs
  let (whole, cs) ← scanWhole cs
  let integer : Option (Toml × List Char) := do
    let n : Int := digitsValue 10 whole
    return (.integer (← wordOf? (if negative then -n else n)), cs)
  match scanFraction cs, scanExponent cs with
  | some (fraction, cs), _ =>
    match scanExponent cs with
    | some (e, cs) => return (← doubleOf? negative whole fraction e, cs)
    | none => return (← doubleOf? negative whole fraction 0, cs)
  | none, some (e, cs) => return (← doubleOf? negative whole [] e, cs)
  | none, none => integer

/-- Words that stand for doubles, after a sign. -/
def scanSpecial (cs : List Char) : Option (Toml × List Char) :=
  let (negative, cs) := scanSign cs
  let signed (x : Float) : Toml := .double (if negative then -x else x)
  match cs with
  | 'i' :: 'n' :: 'f' :: cs => some (signed (1.0 / 0.0), cs)
  | 'n' :: 'a' :: 'n' :: cs => some (signed (0.0 / 0.0), cs)
  | _ => none

/-- Whether a character is a hexadecimal digit. -/
def isHexDigit (c : Char) : Bool :=
  (Text.hexValue? c).isSome

def scanNumber : List Char → Option (Toml × List Char)
  | '0' :: 'x' :: cs => scanBased 16 isHexDigit cs
  | '0' :: 'o' :: cs => scanBased 8 (fun c => '0' ≤ c && c ≤ '7') cs
  | '0' :: 'b' :: cs => scanBased 2 (fun c => c == '0' || c == '1') cs
  | cs => (scanSpecial cs).or (scanDecimal cs)

/-- A date, a time or a number at the front. -/
def scanScalar (cs : List Char) : Option (Toml × List Char) :=
  match cs with
  | 't' :: 'r' :: 'u' :: 'e' :: cs => some (.bool true, cs)
  | 'f' :: 'a' :: 'l' :: 's' :: 'e' :: cs => some (.bool false, cs)
  | _ =>
    match Moment.scan cs with
    | some (m, rest) => some (.moment m, rest)
    | none => scanNumber cs

/-! ## Names -/

/-- Whether a character may stand in a name without quotes. -/
def isBareChar (c : Char) : Bool :=
  c.isAlphanum || c == '-' || c == '_'

def scanPart (cs : List Char) : Option (String × List Char) :=
  match cs with
  | '"' :: cs => (quotedString cs).map fun (s, rest) => (String.ofList s, rest)
  | '\'' :: cs => (literalString cs).map fun (s, rest) => (String.ofList s, rest)
  | _ =>
    let bare := cs.takeWhile isBareChar
    if bare.isEmpty then none else some (String.ofList bare, cs.drop bare.length)

/-- The parts of a name with points between them, and blanks around them. -/
def scanParts : Nat → List Char → Option (List String × List Char)
  | 0, _ => none
  | fuel + 1, cs => do
    let (part, cs) ← scanPart (skipBlanks cs)
    match skipBlanks cs with
    | '.' :: cs => do
      let (parts, cs) ← scanParts fuel cs
      return (part :: parts, cs)
    | cs => return ([part], cs)

def scanName (cs : List Char) : Option (List String × List Char) :=
  scanParts deepest cs

/-! ## Values -/

mutual

/-- A value at the front; `room` levels may be opened. -/
def scanValue : Nat → Nat → List Char → Option (Definition × List Char)
  | 0, _, _ => none
  | fuel + 1, room, cs =>
    match cs with
    | '[' :: cs =>
      match room with
      | 0 => none
      | room + 1 => (scanItems fuel room cs).map fun (vs, rest) => (.array vs, rest)
    | '\x7b' :: cs =>
      match room with
      | 0 => none
      | room + 1 => do
        match skipBlanks cs with
        | '\x7d' :: rest => return (← inlineTable [], rest)
        | cs =>
          let (entries, rest) ← scanEntries fuel room cs
          return (← inlineTable entries, rest)
    | '"' :: _ => (scanString cs).map fun (s, rest) => (.value (.string s), rest)
    | '\'' :: _ => (scanString cs).map fun (s, rest) => (.value (.string s), rest)
    | _ => (scanScalar cs).map fun (v, rest) => (.value v, rest)

/-- The items of an array, up to its closing bracket. -/
def scanItems : Nat → Nat → List Char → Option (List Definition × List Char)
  | 0, _, _ => none
  | fuel + 1, room, cs =>
    match skipLines cs.length cs with
    | ']' :: rest => some ([], rest)
    | cs => do
      let (v, cs) ← scanValue fuel room cs
      match skipLines cs.length cs with
      | ',' :: cs => do
        let (vs, rest) ← scanItems fuel room cs
        return (v :: vs, rest)
      | ']' :: rest => return ([v], rest)
      | _ => none

/-- The entries of a table in braces, up to its closing brace. -/
def scanEntries : Nat → Nat → List Char → Option (List (List String × Definition) × List Char)
  | 0, _, _ => none
  | fuel + 1, room, cs => do
    let (names, cs) ← scanName cs
    match cs with
    | '=' :: cs => do
      let (v, cs) ← scanValue fuel room (skipBlanks cs)
      match skipBlanks cs with
      | ',' :: cs => do
        let (entries, rest) ← scanEntries fuel room cs
        return ((names, v) :: entries, rest)
      | '\x7d' :: rest => return ([(names, v)], rest)
      | _ => none
    | _ => none

end

/-! ## Lines -/

/-- A header or a name with its value at the front. -/
def scanLine (d : Definitions) (cs : List Char) : Option (Definitions × List Char) := do
  match cs with
  | '[' :: '[' :: cs =>
    let (names, cs) ← scanName cs
    match cs with
    | ']' :: ']' :: cs => return (← d.startElement names, ← lineEnd? cs)
    | _ => none
  | '[' :: cs =>
    let (names, cs) ← scanName cs
    match cs with
    | ']' :: cs => return (← d.startTable names, ← lineEnd? cs)
    | _ => none
  | cs =>
    let (names, cs) ← scanName cs
    match cs with
    | '=' :: cs =>
      let (v, cs) ← scanValue (cs.length + 1) deepest (skipBlanks cs)
      return (← d.define names v, ← lineEnd? cs)
    | _ => none

def scanAll : Nat → Definitions → List Char → Option Definitions
  | 0, _, _ => none
  | fuel + 1, d, cs =>
    match skipLines cs.length cs with
    | [] => some d
    | '#' :: cs => if (cs.dropWhile isPrintable).isEmpty then some d else none
    | cs => do
      let (d, cs) ← scanLine d cs
      scanAll fuel d cs

/-- The text without a byte order mark at its front. -/
def withoutMark : List Char → List Char
  | '\ufeff' :: cs => cs
  | cs => cs

/-- The table of a settings file, if it is well formed. -/
def ofText? (s : String) : Option Table := do
  let cs := withoutMark s.toList
  (← scanAll (cs.length + 1) {} cs).toTable

end CodeGraph.Toml
