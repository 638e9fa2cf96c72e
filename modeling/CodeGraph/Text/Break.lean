import CodeGraph.Text.Property
import CodeGraph.Text.Script

/-!
# Breaks

The classes of characters by which text is broken into what is seen as one character, into words
and into sentences, in the sixteenth edition of the character database. A character belongs to the
first class whose rule takes it.
-/

namespace CodeGraph.Text

/-- Marks in the spacing category that nevertheless stand apart from what is before them. -/
private def standingMarks : CodeSet := .ofText (String.join [
  "102b-102c 1038 1062-1064 1067-106d 1083 1087-108c 108f 109a-109c 1a61 1a63-1a64 aa7b aa7d ",
  "11720-11721"])

/-- Letters that belong to what is after them. -/
private def leadingLetters : CodeSet := .ofText
  "d4e 111c2-111c3 113d1 1193f 11941 11a3a 11a84-11a89 11d46 11f02"

/-- Vowels that join the syllable before them. -/
private def joiningVowels : CodeSet := .ofText "1160-11a7 d7b0-d7c6 16d63 16d67-16d6a"

/-- Consonants at the start of a syllable. -/
private def leadingConsonants : CodeSet := .ofText "1100-115f a960-a97c"

/-- Consonants at the end of a syllable. -/
private def trailingConsonants : CodeSet := .ofText "11a8-11ff d7cb-d7fb"

/-- Signs that are part of words. -/
private def wordSigns : CodeSet := .ofText (String.join [
  "2c2-2c5 2d2-2d7 2de-2df 2e5-2eb 2ed 2ef-2ff 55a-55c 55e 58a 5f3 70f a708-a716 a720-a721 ",
  "a789-a78a ab5b"])

/-- Signs of the syllables of Katakana that are of no script of their own. -/
private def kanaSigns : CodeSet := .ofText "3031-3035 309b-309c 30a0 30fc ff70"

/-- Characters of scripts that are written without spaces between the words. -/
private def unspaced : CodeSet := .ofText (String.join [
  "e01-e3a e40-e4e e81-e82 e84 e86-e8a e8c-ea3 ea5 ea7-ebd ec0-ec4 ec6 ec8-ece edc-edf 1000-103f ",
  "1050-108f 109a-109f 1780-17d3 17d7 17dc-17dd 1950-196d 1970-1974 1980-19ab 19b0-19c9 19da ",
  "19de-19df 1a20-1a5e 1a60-1a7c 1aa0-1aad a9e0-a9ef a9fa-a9fe aa60-aac2 aadb-aadf 11700-1171a ",
  "1171d-1172b 1173a-1173b 1173f-11746"])

/-- Signs between parts of a number. -/
private def numberMiddles : CodeSet := .ofText
  "2c 3b 37e 589 60c-60d 66c 7f8 2044 fe10 fe14 fe50 fe54 ff0c ff1b"

/-- Signs after which a sentence goes on. -/
private def sentenceMiddles : CodeSet := .ofText (String.join [
  "2c-2d 3a-3b 37e 55d 60c-60d 7f8 1802 1808 2013-2014 3001 fe10-fe11 fe13-fe14 fe31-fe32 ",
  "fe50-fe51 fe54-fe55 fe58 fe63 ff0c-ff0d ff1a-ff1b ff64"])

/-- Quotation marks that neither open nor close. -/
private def straightQuotes : CodeSet := .ofText
  "22 27 275b-2760 2e00-2e01 2e06-2e08 2e0b 1f676-1f678"

/-- The classes for what is seen as one character. -/
inductive GraphemeBreak where
  | carriageReturn
  | lineFeed
  | control
  | extend
  | joiner
  | regionalIndicator
  | prepend
  | spacingMark
  | leading
  | vowel
  | trailing
  | syllable
  | closedSyllable
  | other
  deriving DecidableEq, Repr, Inhabited

/-- The class of a character for what is seen as one character. -/
def graphemeBreak (c : Char) : GraphemeBreak :=
  let n := c.toNat
  let k := category .sixteenth c
  if c == '\r' then .carriageReturn
  else if c == '\n' then .lineFeed
  else if n == 0x200d then .joiner
  else if isNumberSign c || leadingLetters.contains n then .prepend
  else if isJoining .sixteenth c || Property.emojiModifier.holds c then .extend
  else if k == .lineSeparator || k == .paragraphSeparator || k == .control || k == .format ||
      (k == .unassigned && isHidden .sixteenth c) then .control
  else if Property.regionalIndicator.holds c then .regionalIndicator
  else if (k == .spacingMark && !standingMarks.contains n) || n == 0xe33 || n == 0xeb3 then
    .spacingMark
  else if joiningVowels.contains n then .vowel
  else if leadingConsonants.contains n then .leading
  else if trailingConsonants.contains n then .trailing
  else if 0xac00 ≤ n && n ≤ 0xd7a3 then
    if (n - 0xac00) % 28 == 0 then .syllable else .closedSyllable
  else .other

/-- The names of the classes in small letters without lines between the words. -/
def GraphemeBreak.names : List (String × GraphemeBreak) := [
  ("cr", .carriageReturn), ("lf", .lineFeed), ("control", .control), ("cn", .control),
  ("extend", .extend), ("ex", .extend), ("zwj", .joiner),
  ("regionalindicator", .regionalIndicator), ("ri", .regionalIndicator), ("prepend", .prepend),
  ("pp", .prepend), ("spacingmark", .spacingMark), ("sm", .spacingMark), ("l", .leading),
  ("v", .vowel), ("t", .trailing), ("lv", .syllable), ("lvt", .closedSyllable)]

/-- The classes for words. -/
inductive WordBreak where
  | carriageReturn
  | lineFeed
  | newline
  | joiner
  | extend
  | format
  | regionalIndicator
  | katakana
  | hebrewLetter
  | letter
  | singleQuote
  | doubleQuote
  | middle
  | letterMiddle
  | numberMiddle
  | numeric
  | connector
  | space
  | other
  deriving DecidableEq, Repr, Inhabited

/-- Whether a character is a digit of numbers in text. -/
private def isNumeric (c : Char) : Bool :=
  category .sixteenth c == .decimalDigit || (isNumberSign c && c.toNat != 0x70f) ||
    c.toNat == 0x66b

/-- The class of a character for words. -/
def wordBreak (c : Char) : WordBreak :=
  let n := c.toNat
  let k := category .sixteenth c
  if c == '\r' then .carriageReturn
  else if c == '\n' then .lineFeed
  else if n == 0xb || n == 0xc || n == 0x85 || n == 0x2028 || n == 0x2029 then .newline
  else if n == 0x200d then .joiner
  else if isNumeric c then .numeric
  else if isJoining .sixteenth c || k == .spacingMark || Property.emojiModifier.holds c then
    .extend
  else if k == .format && n != 0x200b && n != 0x70f then .format
  else if Property.regionalIndicator.holds c then .regionalIndicator
  else if (⟨"Kana"⟩ : Script).has c || kanaSigns.contains n then .katakana
  else if (⟨"Hebr"⟩ : Script).has c && k == .otherLetter then .hebrewLetter
  else if wordSigns.contains n || (isLetter .sixteenth c && !Property.ideographic.holds c &&
      !unspaced.contains n && !(⟨"Hira"⟩ : Script).has c) then .letter
  else if c == '\u0027' then .singleQuote
  else if c == '"' then .doubleQuote
  else if ['.', '\u2018', '\u2019', '\u2024', '\ufe52', '\uff07', '\uff0e'].contains c then .middle
  else if Letter.isMiddle c then .letterMiddle
  else if numberMiddles.contains n then .numberMiddle
  else if k == .connector || n == 0x202f then .connector
  else if k == .space && n != 0xa0 && n != 0x2007 then .space
  else .other

/-- The names of the classes in small letters without lines between the words. -/
def WordBreak.names : List (String × WordBreak) := [
  ("cr", .carriageReturn), ("lf", .lineFeed), ("newline", .newline), ("nl", .newline),
  ("zwj", .joiner), ("extend", .extend), ("format", .format), ("fo", .format),
  ("regionalindicator", .regionalIndicator), ("ri", .regionalIndicator), ("katakana", .katakana),
  ("ka", .katakana), ("hebrewletter", .hebrewLetter), ("hl", .hebrewLetter), ("aletter", .letter),
  ("le", .letter), ("singlequote", .singleQuote), ("sq", .singleQuote),
  ("doublequote", .doubleQuote), ("dq", .doubleQuote), ("midnumlet", .middle), ("mb", .middle),
  ("midletter", .letterMiddle), ("ml", .letterMiddle), ("midnum", .numberMiddle),
  ("mn", .numberMiddle), ("numeric", .numeric), ("nu", .numeric), ("extendnumlet", .connector),
  ("ex", .connector), ("wsegspace", .space)]

/-- The classes for sentences. -/
inductive SentenceBreak where
  | carriageReturn
  | lineFeed
  | extend
  | separator
  | format
  | space
  | small
  | capital
  | letter
  | numeric
  | fullStop
  | middle
  | terminal
  | close
  | other
  deriving DecidableEq, Repr, Inhabited

/-- The class of a character for sentences. -/
def sentenceBreak (c : Char) : SentenceBreak :=
  let n := c.toNat
  let k := category .sixteenth c
  if c == '\r' then .carriageReturn
  else if c == '\n' then .lineFeed
  else if isJoining .sixteenth c || k == .spacingMark || n == 0x200d then .extend
  else if n == 0x85 || n == 0x2028 || n == 0x2029 then .separator
  else if isNumeric c || n == 0x66c then .numeric
  else if k == .format then .format
  else if isBlank c then .space
  else if isSmall .sixteenth c && !(0x10d0 ≤ n && n ≤ 0x10fa) && !(0x10fd ≤ n && n ≤ 0x10ff) then
    .small
  else if (isCapital .sixteenth c && !(0x1c90 ≤ n && n ≤ 0x1cbf)) || k == .titleLetter then .capital
  else if isLetter .sixteenth c || n == 0x5f3 then .letter
  else if c == '.' || n == 0x2024 || n == 0xfe52 || n == 0xff0e then .fullStop
  else if sentenceMiddles.contains n then .middle
  else if Property.sentenceTerminal.holds c then .terminal
  else if k == .opening || k == .closing || k == .initialQuote || k == .finalQuote ||
      straightQuotes.contains n then .close
  else .other

/-- The names of the classes in small letters without lines between the words. -/
def SentenceBreak.names : List (String × SentenceBreak) := [
  ("cr", .carriageReturn), ("lf", .lineFeed), ("extend", .extend), ("ex", .extend),
  ("sep", .separator), ("se", .separator), ("format", .format), ("fo", .format), ("sp", .space),
  ("lower", .small), ("lo", .small), ("upper", .capital), ("up", .capital), ("oletter", .letter),
  ("le", .letter), ("numeric", .numeric), ("nu", .numeric), ("aterm", .fullStop),
  ("at", .fullStop), ("scontinue", .middle), ("sc", .middle), ("sterm", .terminal),
  ("st", .terminal), ("close", .close), ("cl", .close)]

end CodeGraph.Text
