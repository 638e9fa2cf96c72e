import CodeGraph.Pattern.CharSet

/-!
# Names of sets of characters

A pattern names a set by a property of the character database, `Greek` or `Alphabetic`, or by a
property and its value, `Script=Greek`. Case, blanks, lines between the words and an `is` in front
make no difference to a name, nor does any character beyond ASCII.
-/

namespace CodeGraph.Pattern.SetName

/-- A name in small letters without blanks and lines between the words, and without `is` at its
start. What is left of `isc` is the name of a property of its own. -/
def plain (s : String) : String :=
  let cs := s.toList.map Char.toLower
  let tail (cs : List Char) : List Char :=
    cs.filter fun c => c != ' ' && c != '_' && c != '-' && c.toNat < 0x80
  match cs with
  | 'i' :: 's' :: rest => if tail rest = ['c'] then "isc" else String.ofList (tail rest)
  | cs => String.ofList (tail cs)

/-- The names of groups of general categories, without blanks, lines and case, with the first
letters of their categories. -/
def categoryNames : List (String × List String) := [
  ("other", ["Cc", "Cf", "Co", "Cn"]), ("c", ["Cc", "Cf", "Co", "Cn"]),
  ("control", ["Cc"]), ("cntrl", ["Cc"]), ("format", ["Cf"]), ("unassigned", ["Cn"]),
  ("privateuse", ["Co"]),
  ("letter", ["Lu", "Ll", "Lt", "Lm", "Lo"]), ("l", ["Lu", "Ll", "Lt", "Lm", "Lo"]),
  ("casedletter", ["Lu", "Ll", "Lt"]), ("lc", ["Lu", "Ll", "Lt"]),
  ("lowercaseletter", ["Ll"]), ("modifierletter", ["Lm"]), ("otherletter", ["Lo"]),
  ("titlecaseletter", ["Lt"]), ("uppercaseletter", ["Lu"]),
  ("mark", ["Mn", "Mc", "Me"]), ("m", ["Mn", "Mc", "Me"]), ("combiningmark", ["Mn", "Mc", "Me"]),
  ("spacingmark", ["Mc"]), ("enclosingmark", ["Me"]), ("nonspacingmark", ["Mn"]),
  ("number", ["Nd", "Nl", "No"]), ("n", ["Nd", "Nl", "No"]),
  ("decimalnumber", ["Nd"]), ("digit", ["Nd"]), ("letternumber", ["Nl"]), ("othernumber", ["No"]),
  ("punctuation", ["Pc", "Pd", "Ps", "Pe", "Pi", "Pf", "Po"]),
  ("p", ["Pc", "Pd", "Ps", "Pe", "Pi", "Pf", "Po"]),
  ("punct", ["Pc", "Pd", "Ps", "Pe", "Pi", "Pf", "Po"]),
  ("connectorpunctuation", ["Pc"]), ("dashpunctuation", ["Pd"]), ("closepunctuation", ["Pe"]),
  ("finalpunctuation", ["Pf"]), ("initialpunctuation", ["Pi"]), ("otherpunctuation", ["Po"]),
  ("openpunctuation", ["Ps"]),
  ("symbol", ["Sm", "Sc", "Sk", "So"]), ("s", ["Sm", "Sc", "Sk", "So"]),
  ("currencysymbol", ["Sc"]), ("modifiersymbol", ["Sk"]), ("mathsymbol", ["Sm"]),
  ("othersymbol", ["So"]),
  ("separator", ["Zs", "Zl", "Zp"]), ("z", ["Zs", "Zl", "Zp"]),
  ("lineseparator", ["Zl"]), ("paragraphseparator", ["Zp"]), ("spaceseparator", ["Zs"])]

/-- The categories of a plain name. No character is a surrogate. -/
def categories? (name : String) : Option (List Text.Category) :=
  match categoryNames.lookup name with
  | some l => l.mapM Text.Category.ofAbbreviation?
  | none =>
    (Text.Category.all.find? fun c => c != .surrogate && c.abbreviation.toLower == name).map
      fun c => [c]

/-- The set of a plain name as a value of the general category. -/
def category? (name : String) : Option CharSet :=
  match name with
  | "any" => some (.compl .none)
  | "ascii" => some (.range '\x00' '\x7f')
  | "assigned" => some (.compl (.database (.categories [.unassigned])))
  | name => (categories? name).map fun l => .database (.categories l)

/-- The set of a name that stands alone: a property, a general category or a script. -/
def set? (s : String) : Option CharSet :=
  let name := plain s
  ((Text.Property.names.lookup name).map fun p => CharSet.database (.property p)) <|>
    category? name <|> ((Text.Script.named? name).map fun k => .database (.script k))

/-- The set of a property and a value. -/
def setOfValue? (property value : String) : Option CharSet :=
  let value := plain value
  match plain property with
  | "generalcategory" | "gc" => category? value
  | "script" | "sc" => (Text.Script.named? value).map fun s => .database (.script s)
  | "scriptextensions" | "scx" => (Text.Script.named? value).map fun s => .database (.usedIn s)
  | "age" => (Text.Age.named? value).map fun a => .database (.known a)
  | "graphemeclusterbreak" | "gcb" =>
    (Text.GraphemeBreak.names.lookup value).map fun k => .database (.graphemeBreak k)
  | "wordbreak" | "wb" =>
    (Text.WordBreak.names.lookup value).map fun k => .database (.wordBreak k)
  | "sentencebreak" | "sb" =>
    (Text.SentenceBreak.names.lookup value).map fun k => .database (.sentenceBreak k)
  | _ => none

end CodeGraph.Pattern.SetName
