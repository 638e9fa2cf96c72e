import CodeGraph.NameMap

/-!
# Reading options

A command line is read from left to right along a tree of commands: the options of a command, then
the name of one of its subcommands, and so on. Long options are written `--name value` or
`--name=value`, short ones `-n value`, `-nvalue` or `-n=value`, and short options without values
may share a dash. After two dashes nothing is an option any more.

A command with subcommands takes the word `help` too. What follows it leads to the command that is
asked about, and every word of it has to name a subcommand.

An option may be shared by a command and all below it. Given at several levels, the innermost
counts; given at none, a variable of the environment may stand in for it.
-/

namespace CodeGraph.CommandLine

/-- How an option takes values. -/
inductive OptionKind where
  | flag
  /-- Exactly one value, which satisfies a check. -/
  | single (check : String → Bool)
  /-- Any number of values; a text may hold several with a separator between them. -/
  | many (separator : Option Char)

/-- An option. -/
structure OptionSpec where
  name : String
  short : Option Char := none
  kind : OptionKind
  /-- The variable of the environment that may stand in for the option. -/
  envVar? : Option String := none
  /-- The options that may not be given together with it. -/
  excludes : List String := []

/-- A command with its own options and its subcommands. -/
inductive CommandSpec where
  | mk (name : String) (options : List OptionSpec) (subcommands : List CommandSpec)

namespace CommandSpec

def name : CommandSpec → String
  | .mk name .. => name

/-- The subcommand of a name among some. -/
def find? (name : String) : List CommandSpec → Option CommandSpec
  | [] => none
  | c :: rest => if c.name = name then some c else find? name rest

end CommandSpec

/-- Why no command is carried out. -/
inductive Stop where
  | misuse
  | help
  /-- The version is asked for, of a command of this name. -/
  | version (name : String)
  deriving DecidableEq, Repr

/-- The values of options by name; a flag has none. -/
abbrev Given := NameMap (List String)

/-- The options of a command line: those that are shared, those of the innermost command, and the
names of the commands from the outermost on. -/
structure Reading where
  shared : Given := .empty
  own : Given := .empty
  path : List String := []

/-! ## One option -/

def splitValues (separator : Option Char) (s : String) : List String :=
  match separator with
  | none => [s]
  | some c => s.splitOn c.toString

/-- Records a value of an option. -/
def takeValue (given : Given) (o : OptionSpec) (s : String) : Except Stop Given :=
  match o.kind with
  | .flag => .error .misuse
  | .single check =>
    if given.contains o.name || !check s then .error .misuse
    else .ok (given.insert o.name [s])
  | .many separator =>
    .ok (given.insert o.name ((given.get? o.name).getD [] ++ splitValues separator s))

def takeFlag (given : Given) (o : OptionSpec) : Except Stop Given :=
  if given.contains o.name then .error .misuse else .ok (given.insert o.name [])

def OptionSpec.takesValues (o : OptionSpec) : Bool :=
  match o.kind with
  | .flag => false
  | _ => true

/-- What has been given so far, and the option that waits for its value. -/
structure Progress where
  given : Given := .empty
  waiting : Option OptionSpec := none

/-- Reads a long option without its dashes. -/
def takeLong (title : String) (options : List OptionSpec) (given : Given) (cs : List Char) :
    Except Stop Progress :=
  let name := String.ofList (cs.takeWhile (· != '='))
  let attached := (cs.dropWhile (· != '=')).tail?
  match options.find? (·.name == name), attached with
  | some o, some value =>
    (takeValue given o (String.ofList value)).map fun given => { given }
  | some o, none =>
    if o.takesValues then .ok { given, waiting := some o }
    else (takeFlag given o).map fun given => { given }
  | none, none =>
    if name = "help" then .error .help
    else if name = "version" then .error (.version title)
    else .error .misuse
  | none, some _ => .error .misuse

/-- Reads short options behind one dash. -/
def takeShort (title : String) (options : List OptionSpec) (given : Given) :
    List Char → Except Stop Progress
  | [] => .ok { given }
  | c :: rest =>
    match options.find? (·.short == some c) with
    | some o =>
      if o.takesValues then
        match rest with
        | [] => .ok { given, waiting := some o }
        | '=' :: value => (takeValue given o (String.ofList value)).map fun given => { given }
        | value => (takeValue given o (String.ofList value)).map fun given => { given }
      else do
        takeShort title options (← takeFlag given o) rest
    | none =>
      if c = 'h' then .error .help
      else if c = 'V' then .error (.version title)
      else .error .misuse

/-! ## One command -/

/-- How reading stops at the word `help`, given the subcommands there and the words behind it. Help
may be asked for about asking for help. -/
def stopForHelp : List CommandSpec → List String → Stop
  | _, [] => .help
  | subcommands, word :: rest =>
    match CommandSpec.find? word subcommands with
    | some (.mk _ _ inner) => stopForHelp inner rest
    | none =>
      if word = "help" && !subcommands.isEmpty && rest.isEmpty then .help else .misuse

/-- Whether options that exclude each other are given. -/
def clashes (options : List OptionSpec) (given : Given) : Bool :=
  options.any fun o => given.contains o.name && o.excludes.any given.contains

/-- Fills in options from the environment; the check of the option holds there too. -/
def fillIn (environment : NameMap String) (options : List OptionSpec) (given : Given) :
    Except Stop Given :=
  options.foldlM (fun given o =>
    match o.envVar?.bind environment.get? with
    | some value => if given.contains o.name then .ok given else takeValue given o value
    | none => .ok given) given

/-- The shared options with those of an inner command over them. What is given outside goes before
what the environment says inside. -/
def overlay (outer inner : Given) (explicit : Given) : Given :=
  inner.entries.foldl (fun m (name, values) =>
    if outer.contains name && !explicit.contains name then m else m.insert name values) outer

/-- Reads the words of a command with the title `title` and the commands below it. The options of
`shared` belong to every command. -/
def readCommand (environment : NameMap String) (shared : List OptionSpec) (spec : CommandSpec)
    (title : String) (outer : Reading) (p : Progress) (trailing : Bool) :
    List String → Except Stop Reading
  | [] =>
    match spec with
    | .mk name options subcommands => do
      if p.waiting.isSome || !subcommands.isEmpty then throw .misuse
      let given ← fillIn environment (shared ++ options) p.given
      if clashes options p.given then throw .misuse
      let isShared (n : String) := shared.any (·.name == n)
      return {
        shared := overlay outer.shared (given.filter fun n _ => isShared n) p.given
        own := given.filter fun n _ => !isShared n
        path := outer.path ++ [name] }
  | word :: rest =>
    match spec with
    | .mk name options subcommands =>
      let all := shared ++ options
      if trailing then .error .misuse
      else
        match p.waiting, CommandSpec.find? word subcommands, word.toList with
        | none, some inner, _ => do
          let filled := fillIn environment shared p.given
          let given := filled.toOption.getD p.given
          let outer : Reading := {
            shared := overlay outer.shared given p.given, path := outer.path ++ [name] }
          let r ← readCommand environment shared inner (title ++ "-" ++ word) outer {} false rest
          let _ ← filled
          return r
        | _, _, ['-', '-'] => readCommand environment shared spec title outer p true rest
        | some _, _, '-' :: '-' :: _ => .error .misuse
        | some _, _, '-' :: _ :: _ => .error .misuse
        | none, _, '-' :: '-' :: cs => do
          let p ← takeLong title all p.given cs
          readCommand environment shared spec title outer p false rest
        | none, _, '-' :: c :: cs => do
          let p ← takeShort title all p.given (c :: cs)
          readCommand environment shared spec title outer p false rest
        | some o, _, _ => do
          let given ← takeValue p.given o word
          readCommand environment shared spec title outer { given } false rest
        | none, _, _ =>
          if word = "help" && !subcommands.isEmpty then .error (stopForHelp subcommands rest)
          else .error .misuse

def readOptions (environment : NameMap String) (shared : List OptionSpec) (spec : CommandSpec)
    (words : List String) : Except Stop Reading :=
  readCommand environment shared spec spec.name {} {} false words

end CodeGraph.CommandLine
