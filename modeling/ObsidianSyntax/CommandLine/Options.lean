import ObsidianSyntax.Report

/-!
# Options of the command line

Options and the name of the source file may stand in any order; behind a bare `--` nothing is an
option. A long option takes its value behind an equals sign, and the one for the form of errors also
as the next argument. Short options may be written together. Asking for help may name a topic, but
only behind an equals sign. No option may be given twice.
-/

namespace ObsidianSyntax

/-- Why arguments cannot be understood. -/
inductive UsageFault where
  | unknownOption (argument : String)
  | givenTwice (option : String)
  | noValueAllowed (option : String)
  | valueMissing (option : String)
  | badValue (option value : String)
  | extraFile (argument : String)
  | excludes (option other : String)
deriving DecidableEq, Repr

def UsageFault.message : UsageFault → String
  | .unknownOption argument => "unexpected argument '" ++ argument ++ "'"
  | .givenTwice option => "the argument '" ++ option ++ "' cannot be used multiple times"
  | .noValueAllowed option => "the argument '" ++ option ++ "' takes no value"
  | .valueMissing option => "a value is required for '" ++ option ++ "'"
  | .badValue option value => "invalid value '" ++ value ++ "' for '" ++ option ++ "'"
  | .extraFile argument => "unexpected argument '" ++ argument ++ "'"
  | .excludes option other => "the argument '" ++ option ++ "' cannot be used with '" ++ other ++ "'"

/-- The options as given. -/
structure Options where
  /-- The topic that help is wanted on, empty for the overview. -/
  help : Option String
  version : Bool
  dumpTokens : Bool
  check : Bool
  errorFormat : Option ErrorFormat
  file : Option String
deriving DecidableEq, Repr

namespace Options

def empty : Options := ⟨none, false, false, false, none, none⟩

def setHelp (options : Options) (topic : String) : Except UsageFault Options :=
  if options.help.isSome then .error (.givenTwice "--help") else .ok { options with help := some topic }

def setVersion (options : Options) : Except UsageFault Options :=
  if options.version then .error (.givenTwice "--version") else .ok { options with version := true }

def setDumpTokens (options : Options) : Except UsageFault Options :=
  if options.dumpTokens then .error (.givenTwice "--dump-tokens") else .ok { options with dumpTokens := true }

def setCheck (options : Options) : Except UsageFault Options :=
  if options.check then .error (.givenTwice "--check") else .ok { options with check := true }

/-- Chooses the form of errors by its name. -/
def setErrorFormat (options : Options) (value : String) : Except UsageFault Options := do
  let format ←
    if value = "plain" then pure ErrorFormat.plain
    else if value = "pretty" then pure ErrorFormat.pretty
    else throw (.badValue "--error-format" value)
  if options.errorFormat.isSome then throw (.givenTwice "--error-format")
  return { options with errorFormat := some format }

def setFile (options : Options) (name : String) : Except UsageFault Options :=
  if options.file.isSome then .error (.extraFile name) else .ok { options with file := some name }

/-- An option without a value: there must be none behind an equals sign. -/
def withoutValue (option : String) (value : Option String) (set : Except UsageFault Options) :
    Except UsageFault Options :=
  if value.isSome then .error (.noValueAllowed option) else set

/-- The short options written together behind one hyphen. -/
def addShort (options : Options) : List Char → Except UsageFault Options
  | [] => .ok options
  | 'h' :: '=' :: topic => options.setHelp (String.ofList topic)
  | 'h' :: rest => do (← options.setHelp "").addShort rest
  | 'v' :: rest => do (← options.setVersion).addShort rest
  | c :: _ => .error (.unknownOption ("-" ++ String.singleton c))

/-- The long option of that name, with the value behind its equals sign. -/
def addLong (options : Options) (name : String) (value : Option String) : Except UsageFault Options :=
  match name with
  | "help" => options.setHelp (value.getD "")
  | "version" => withoutValue "--version" value options.setVersion
  | "dump-tokens" => withoutValue "--dump-tokens" value options.setDumpTokens
  | "check" => withoutValue "--check" value options.setCheck
  | _ => .error (.unknownOption ("--" ++ name))

/-- The name of a long option and the value behind its equals sign. -/
def splitValue (text : List Char) : String × Option String :=
  match text.dropWhile (· != '=') with
  | [] => (String.ofList text, none)
  | _ :: value => (String.ofList (text.takeWhile (· != '=')), some (String.ofList value))

/-- Whether an argument is read as options: it starts with a hyphen and is more than that. -/
def isOption : List Char → Bool
  | '-' :: _ :: _ => true
  | _ => false

/-- Arguments of which none is an option. -/
def addFiles (options : Options) : List String → Except UsageFault Options
  | [] => .ok options
  | argument :: rest => do (← options.setFile argument).addFiles rest

/-- The options with those in the arguments added. -/
def add (options : Options) : List String → Except UsageFault Options
  | [] => .ok options
  | argument :: rest =>
    match argument.toList with
    | ['-', '-'] => options.addFiles rest
    | '-' :: '-' :: text =>
      match splitValue text, rest with
      | ("error-format", some value), rest => do (← options.setErrorFormat value).add rest
      | ("error-format", none), value :: rest => do
        if isOption value.toList then throw (.valueMissing "--error-format")
        (← options.setErrorFormat value).add rest
      | ("error-format", none), [] => .error (.valueMissing "--error-format")
      | (name, value), rest => do (← options.addLong name value).add rest
    | '-' :: c :: letters => do (← options.addShort (c :: letters)).add rest
    | _ => do (← options.setFile argument).add rest

/-- The options that arguments give. A listing of tokens and a mere check exclude each other. -/
def ofArguments (arguments : List String) : Except UsageFault Options := do
  let options ← empty.add arguments
  if options.check && options.dumpTokens then throw (.excludes "--check" "--dump-tokens")
  return options

def mode (options : Options) : Mode :=
  if options.dumpTokens then .tokens else if options.check then .check else .default

def format (options : Options) : ErrorFormat := options.errorFormat.getD .default

end Options

end ObsidianSyntax
