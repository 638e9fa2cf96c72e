/-!
# Breaks in JSON text

How a text stops being JSON: it ends inside of something, or goes on with something that cannot
stand there. `Break.message` is the wording of each way.

Readers differ in what they look for at one and the same place, so they may meet different breaks
there. A `Fault` holds what each kind of reader meets.
-/

namespace CodeGraph.Json

/-- What a text ends inside of. -/
inductive Enclosing where
  | value
  | string
  | array
  | object
  deriving DecidableEq, Repr

/-- What is wrong with a text that does not end too early. -/
inductive Flaw where
  /-- No value begins here. -/
  | noValue
  /-- A word that begins like a constant is none. -/
  | noConstant
  | noColon
  | noCommaInArray
  | noCommaInObject
  /-- Nothing follows a comma. -/
  | commaAtEnd
  /-- A member begins with something else than a string. -/
  | noName
  /-- Something follows where the text has to end, or the array or object. -/
  | more
  | badNumber
  /-- A number is beyond the doubles. -/
  | numberTooLarge
  /-- A letter that no escape has. -/
  | badEscape
  /-- An escape without its hexadecimal digits. -/
  | badDigits
  /-- The second half of a surrogate pair is something else, or stands alone. -/
  | halfPair
  /-- Nothing follows the first half of a surrogate pair. -/
  | openPair
  | controlCharacter
  /-- Bytes that are no characters. -/
  | badCharacter
  /-- Arrays and objects nest too deep. -/
  | tooDeep
  deriving DecidableEq, Repr

/-- How a text stops being JSON. -/
inductive Break where
  | truncated (inside : Enclosing)
  | malformed (f : Flaw)
  deriving DecidableEq, Repr

/-- The name of what a text ends inside of. -/
def Enclosing.name : Enclosing → String
  | .value => "a value"
  | .string => "a string"
  | .array => "a list"
  | .object => "an object"

def Flaw.message : Flaw → String
  | .noValue => "expected value"
  | .noConstant => "expected ident"
  | .noColon => "expected `:`"
  | .noCommaInArray => "expected `,` or `]`"
  | .noCommaInObject => "expected `,` or `\x7d`"
  | .commaAtEnd => "trailing comma"
  | .noName => "key must be a string"
  | .more => "trailing characters"
  | .badNumber => "invalid number"
  | .numberTooLarge => "number out of range"
  | .badEscape | .badDigits => "invalid escape"
  | .halfPair => "lone leading surrogate in hex escape"
  | .openPair => "unexpected end of hex escape"
  | .controlCharacter => "control character (\\u0000-\\u001F) found while parsing a string"
  | .badCharacter => "invalid unicode code point"
  | .tooDeep => "recursion limit exceeded"

def Break.message : Break → String
  | .truncated e => "EOF while parsing " ++ e.name
  | .malformed f => f.message

/-- What a reader meets that looks for an end and nothing else, given the break there. -/
def Break.atEnd (f : Flaw) : Break → Break
  | .truncated e => .truncated e
  | .malformed _ => .malformed f

/-- What each kind of reader meets at a break. -/
structure Fault where
  /-- A reader of the value. -/
  reading : Break
  /-- A reader that skips the value. -/
  skipping : Break
  /-- A reader that chooses a constructor by its name. -/
  choosing : Break
  deriving DecidableEq, Repr

namespace Fault

/-- A break that is the same for every reader. -/
def all (b : Break) : Fault := ⟨b, b, b⟩

/-- A flaw that is the same for every reader. -/
def flaw (f : Flaw) : Fault := .all (.malformed f)

/-- A flaw in something that is no name of a constructor. -/
def unnamed (f : Flaw) : Fault := ⟨.malformed f, .malformed f, .malformed .noValue⟩

end Fault

end CodeGraph.Json
