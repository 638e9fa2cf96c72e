import CodeGraph.Text.Category

/-!
# Quoted text

Characters that join the character before them, and characters that show nothing unless they are
given a meaning. A text between double quotes for a diagnostic has them escaped, and all else that
cannot be seen on its own, so that two different texts never look alike.
-/

namespace CodeGraph.Text

/-! ## Joining and showing nothing -/

/-- Characters outside of the two mark categories that join the character before them. -/
private def otherJoining : CodeSet := .ofText (String.join [
  "9be 9d7 b3e b57 bbe bd7 cc0 cc2 cc7-cc8 cca-ccb cd5-cd6 d3e d57 dcf ddf 1715 1734 1b35 1b3b ",
  "1b3d 1b43-1b44 1baa 1bf2-1bf3 200c 302e-302f a953 a9c0 ff9e-ff9f 111c0 11235 1133e 1134d ",
  "11357 113b8 113c2 113c5 113c7-113c9 113cf 114b0 114bd 115af 116b6 11930 1193d 11f41 ",
  "16ff0-16ff1 1d165-1d166 1d16d-1d172 e0020-e007f"])

/-- Characters that show nothing, of categories that else show something. -/
private def otherHidden : CodeSet := .ofText (String.join [
  "34f 115f-1160 17b4-17b5 2065 3164 ffa0 fff0-fff8 e0000 e0002-e001f e0080-e00ff e01f0-e0fff"])

/-- Characters that choose between forms of the character before them. -/
private def formSelectors : CodeSet := .ofText "180b-180d 180f fe00-fe0f e0100-e01ef"

/-- Signs that enclose the digits after them. -/
private def numberSigns : CodeSet := .ofText "600-605 6dd 70f 890-891 8e2 110bd 110cd"

/-- Whether a character joins the character before it without being of a mark category for that. -/
def isOtherJoining (c : Char) : Bool :=
  otherJoining.contains c.toNat

/-- Whether a character is listed as one that shows nothing. -/
def isOtherHidden (c : Char) : Bool :=
  otherHidden.contains c.toNat

/-- Whether a character chooses between forms of the character before it. -/
def isFormSelector (c : Char) : Bool :=
  formSelectors.contains c.toNat

/-- Whether a character encloses the digits after it. -/
def isNumberSign (c : Char) : Bool :=
  numberSigns.contains c.toNat

/-- Whether a character joins the character before it. -/
def isJoining (e : Edition) (c : Char) : Bool :=
  (match category e c with
  | .nonspacingMark | .enclosingMark => true
  | _ => false) || isOtherJoining c

/-- Whether a character shows nothing unless it is given a meaning. -/
def isHidden (e : Edition) (c : Char) : Bool :=
  let n := c.toNat
  (category e c == .format && !isNumberSign c && !(0xfff9 ≤ n && n ≤ 0xfffb) &&
    !(0x13430 ≤ n && n ≤ 0x1343f)) || isOtherHidden c || isFormSelector c

/-! ## Quotes -/

/-- Whether a character can be seen on its own. The half-width voicing marks join the character
before them and still take a place of their own. -/
def isVisible (c : Char) : Bool :=
  if 0x20 ≤ c.toNat ∧ c.toNat < 0x7f then true
  else
    match category .seventeenth c with
    | .control | .format | .surrogate | .privateUse | .unassigned | .lineSeparator
    | .paragraphSeparator | .space => false
    | .modifierLetter => true
    | _ => !isJoining .seventeenth c && !isHidden .seventeenth c

/-- The characters that stand for a character between quotes. -/
def quotedChar (c : Char) : List Char :=
  if c = '\x00' then ['\\', '0']
  else if c = '\t' then ['\\', 't']
  else if c = '\r' then ['\\', 'r']
  else if c = '\n' then ['\\', 'n']
  else if c = '"' then ['\\', '"']
  else if c = '\\' then ['\\', '\\']
  else if isVisible c then [c]
  else ['\\', 'u', '\x7b'] ++ Nat.toDigits 16 c.toNat ++ ['\x7d']

def inQuotes (s : String) : String :=
  "\"" ++ String.ofList (s.toList.flatMap quotedChar) ++ "\""

end CodeGraph.Text
