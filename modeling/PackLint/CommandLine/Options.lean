/-! # Command line options

    The arguments of the program are a path of a data pack and options, in any
    order.  `Request.ofArgs` reads them one after another: an option with a value
    takes it from the same argument or from the next one, which then must not look
    like an option; one-letter options may share an argument; and after two
    dashes every argument is a path.  What asks for the version ends the reading. -/

namespace PackLint.CommandLine

/-- The form in which findings are printed. -/
inductive OutputFormat
  | text
  | json
deriving DecidableEq, Repr

/-- The options that take a value. -/
inductive ValueOption
  | rule
  | config
  | format
deriving DecidableEq, Repr

structure Options where
  /-- The path of the data pack. -/
  pack : Option String
  rules : List String
  /-- The path of the configuration. -/
  config : Option String
  format : Option OutputFormat
  list : Bool
  verbose : Bool
deriving DecidableEq, Repr

/-- The options when no argument has been read. -/
def Options.initial : Options := ⟨none, [], none, none, false, false⟩

/-- What the arguments ask for. -/
inductive Request
  | version
  | run (options : Options)
deriving DecidableEq, Repr

/-- Arguments that cannot be read. -/
inductive UsageError
  | unknownOption (arg : String)
  /-- A second path, or an empty one. -/
  | unexpectedPath (arg : String)
  | missingValue (option : ValueOption)
  | badValue (option : ValueOption) (value : String)
  /-- An option without a value was given one. -/
  | unexpectedValue (arg : String)
  /-- An option that may be given once was given again. -/
  | repeated (arg : String)
deriving DecidableEq, Repr

def ValueOption.name : ValueOption → String
  | rule => "--rule"
  | config => "--config"
  | format => "--format"

def UsageError.message : UsageError → String
  | unknownOption arg => "unknown option " ++ arg
  | unexpectedPath arg => "unexpected path " ++ arg
  | missingValue option => option.name ++ " needs a value"
  | badValue option value => option.name ++ " cannot be " ++ value
  | unexpectedValue arg => arg ++ " takes no value"
  | repeated arg => arg ++ " may be given only once"

/-- Between two arguments: what has been read, and what the next one is. -/
inductive Progress
  /-- An option or a path. -/
  | ready (options : Options)
  /-- The value of an option. -/
  | value (options : Options) (option : ValueOption)
  /-- A path. -/
  | path (options : Options)
  /-- The version was asked for. -/
  | version
deriving DecidableEq, Repr

namespace Options

/-- Takes the path of the data pack. -/
def takePath (o : Options) (arg : String) : Except UsageError Options :=
  if o.pack.isSome || arg.isEmpty then .error (.unexpectedPath arg)
  else .ok { o with pack := some arg }

/-- Takes the value of an option. -/
def takeValue (o : Options) (option : ValueOption) (value : String) :
    Except UsageError Options :=
  match option with
  | .rule => .ok { o with rules := o.rules ++ [value] }
  | .config =>
      if o.config.isSome then .error (.repeated option.name)
      else if value.isEmpty then .error (.badValue option value)
      else .ok { o with config := some value }
  | .format =>
      if o.format.isSome then .error (.repeated option.name)
      else if value = "text" then .ok { o with format := some .text }
      else if value = "json" then .ok { o with format := some .json }
      else .error (.badValue option value)

def takeList (o : Options) : Except UsageError Options :=
  if o.list then .error (.repeated "--list") else .ok { o with list := true }

def takeVerbose (o : Options) : Except UsageError Options :=
  if o.verbose then .error (.repeated "--verbose") else .ok { o with verbose := true }

/-- Takes an option with a value that may stand in the same argument. -/
def takeOption (o : Options) (option : ValueOption) (value : Option (List Char)) :
    Except UsageError Progress :=
  match value with
  | some value => (o.takeValue option (String.ofList value)).map .ready
  | none => .ok (.value o option)

/-- Takes an option by its long name. -/
def takeLong (o : Options) (name : List Char) (value : Option (List Char)) :
    Except UsageError Progress :=
  let arg := "--" ++ String.ofList name
  match arg with
  | "--rule" => o.takeOption .rule value
  | "--config" => o.takeOption .config value
  | "--format" => o.takeOption .format value
  | "--list" =>
      if value.isSome then .error (.unexpectedValue arg) else o.takeList.map .ready
  | "--verbose" =>
      if value.isSome then .error (.unexpectedValue arg) else o.takeVerbose.map .ready
  | "--version" =>
      if value.isSome then .error (.unexpectedValue arg) else .ok .version
  | _ => .error (.unknownOption arg)

/-- The value of a one-letter option in the rest of its argument, if there is any.
    An equals sign before it is no part of it. -/
def attachedValue : List Char → Option (List Char)
  | [] => none
  | '=' :: cs => some cs
  | cs => some cs

/-- Takes the one-letter options that share an argument. -/
def takeShort (o : Options) : List Char → Except UsageError Progress
  | [] => .ok (.ready o)
  | 'r' :: cs => o.takeOption .rule (attachedValue cs)
  | 'c' :: cs => o.takeOption .config (attachedValue cs)
  | 'f' :: cs => o.takeOption .format (attachedValue cs)
  | 'V' :: _ => .ok .version
  | 'v' :: cs => do
      let o ← o.takeVerbose
      takeShort o cs
  | c :: _ => .error (.unknownOption ("-" ++ String.ofList [c]))

end Options

/-- An argument that looks like an option.  A dash alone does not. -/
def looksLikeOption (arg : List Char) : Bool :=
  arg.head? == some '-' && arg != ['-']

/-- Takes an argument that may be an option or a path. -/
def Options.takeArg (o : Options) (arg : String) : Except UsageError Progress :=
  match arg.toList with
  | ['-', '-'] => .ok (.path o)
  | '-' :: '-' :: cs =>
      let value := match cs.dropWhile (· != '=') with
        | [] => none
        | _ :: value => some value
      o.takeLong (cs.takeWhile (· != '=')) value
  | ['-'] => (o.takePath arg).map .ready
  | '-' :: cs => o.takeShort cs
  | _ => (o.takePath arg).map .ready

namespace Progress

/-- Takes the next argument. -/
def next : Progress → String → Except UsageError Progress
  | ready o, arg => o.takeArg arg
  | value o option, arg =>
      if looksLikeOption arg.toList then .error (.missingValue option)
      else (o.takeValue option arg).map ready
  | path o, arg => (o.takePath arg).map path
  | version, _ => .ok version

/-- What was asked for, when no argument is left. -/
def finish : Progress → Except UsageError Request
  | ready o | path o => .ok (.run o)
  | value _ option => .error (.missingValue option)
  | version => .ok .version

end Progress

/-- What the arguments ask for. -/
def Request.ofArgs (args : List String) : Except UsageError Request := do
  let progress ← args.foldlM Progress.next (.ready .initial)
  progress.finish

end PackLint.CommandLine
