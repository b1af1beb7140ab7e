import SignedFlash.Command.Dump
import SignedFlash.Command.HeaderInfo
import SignedFlash.Command.Verify

/-!
# Command line arguments

The grammar of the command line: global flags, the name of a command, and the command's options. An
option that takes a value takes the rest of its argument after an equals sign, or else the next
argument, which must not look like an option. No option may be given twice in one place. Arguments
are read in order, and one that asks for help ends the reading, so that what follows it is not
checked, while what stands in front of it is.
-/

namespace SignedFlash

inductive Command where
  | verify (request : VerifyRequest)
  | headerInfo (request : HeaderInfoRequest)
  | dump (request : DumpRequest)
  deriving DecidableEq

inductive Invocation where
  -- To run a command, with all log lines or only warnings.
  | run (verbose : Bool) (command : Command)
  | help
  | noCommand
  deriving DecidableEq

-- The reasons for which a command line is refused.
inductive UsageError where
  | noArguments
  | unknownCommand (name : String)
  | unknownOption (argument : String)
  -- An argument is neither an option nor the value of one.
  | unexpectedArgument (argument : String)
  | unexpectedValue (option : String)
  | missingValue (option : String)
  | emptyValue (option : String)
  | repeated (option : String)
  | missingOption (option : String)
  -- The value of an option is no number of 64 bits.
  | invalidNumber (option value : String)
  deriving DecidableEq

def UsageError.message : UsageError → String
  | .noArguments => "a command is required"
  | .unknownCommand name => "unrecognized command " ++ name
  | .unknownOption argument => "unexpected argument " ++ argument
  | .unexpectedArgument argument => "unexpected argument " ++ argument
  | .unexpectedValue option => "--" ++ option ++ " takes no value"
  | .missingValue option => "--" ++ option ++ " requires a value"
  | .emptyValue option => "--" ++ option ++ " requires a value"
  | .repeated option => "--" ++ option ++ " cannot be used multiple times"
  | .missingOption option => "--" ++ option ++ " is required"
  | .invalidNumber option value => "invalid value " ++ value ++ " for --" ++ option

namespace Arguments

inductive ValueKind where
  | flag
  | text
  | path
  | number
  deriving DecidableEq

-- The options of one place of the command line, by name.
abbrev OptionTable := List (String × ValueKind)

-- An option that was given, with its value if it takes one.
abbrev Given := String × Option String

-- Whether an argument looks like an option. A single dash does not.
def looksLikeOption (argument : String) : Bool := argument.startsWith "-" && argument != "-"

/-- The name of a long option and the value attached to it, without the two dashes. -/
def splitLong (argument : String) : String × Option String :=
  let text := argument.toList.drop 2
  let name := String.ofList (text.takeWhile (· != '='))
  match text.dropWhile (· != '=') with
  | [] => (name, none)
  | _ :: value => (name, some (String.ofList value))

-- A number of 64 bits in decimal, with an optional plus sign.
def numberOfText? (text : String) : Option UInt64 :=
  let digits := match text.toList with
    | '+' :: rest => rest
    | all => all
  if digits.isEmpty || !digits.all Char.isDigit then none
  else
    let n := Toml.numberOfDigits 10 digits
    if n < 0x10000000000000000 then some (UInt64.ofNat n) else none

-- Refuses a value that its option does not take.
def checkValue (name : String) (value : String) : ValueKind → Except UsageError Unit
  | .path => if value = "" then .error (.emptyValue name) else .ok ()
  | .number =>
    if (numberOfText? value).isNone then .error (.invalidNumber name value) else .ok ()
  | .flag | .text => .ok ()

-- Whether an option of this name asks for an explanation of the command line.
def asksForHelp (name : String) : Bool := name == "help"

-- The flags that have a letter of their own.
def letterFlags : List (Char × String) := [('v', "verbose"), ('h', "help")]

/-- The flags that the letters behind a single dash stand for, up to one that asks for help. -/
def readLetters (argument : String) : List Char → Except UsageError (List Given)
  | [] => .ok []
  | letter :: rest =>
    match letterFlags.lookup letter with
    | none => .error (.unknownOption argument)
    | some name =>
      if asksForHelp name then .ok [(name, none)]
      else do
        let given ← readLetters argument rest
        return (name, none) :: given

def isGiven (given : List Given) (name : String) : Bool := given.any (·.1 == name)

-- Whether an explanation of the command line is asked for.
def helpIsGiven (given : List Given) : Bool := given.any (asksForHelp ·.1)

-- The value of an option, if it is given.
def value? (given : List Given) (name : String) : Option String := (given.lookup name).join

/-- The options in front of the first other argument, and the arguments from there on. -/
structure GivenOptions where
  given : List Given
  rest : List String

def GivenOptions.append (given : List Given) (options : GivenOptions) : GivenOptions :=
  { options with given := given ++ options.given }

/-- Reads options up to the first argument that is none, or to one that asks for help. After a
double dash, all arguments are none. -/
def readOptions (table : OptionTable) : List String → Except UsageError GivenOptions
  | [] => .ok ⟨[], []⟩
  | argument :: rest =>
    if argument = "--" then
      match rest with
      | [] => .ok ⟨[], []⟩
      | next :: _ => .error (.unexpectedArgument next)
    else if argument.startsWith "--" then
      let (name, attached) := splitLong argument
      match table.lookup name, attached with
      | none, _ => .error (.unknownOption argument)
      | some .flag, some _ => .error (.unexpectedValue name)
      | some .flag, none =>
        if asksForHelp name then .ok ⟨[(name, none)], []⟩
        else do
          let options ← readOptions table rest
          return options.append [(name, none)]
      | some kind, some value => do
        checkValue name value kind
        let options ← readOptions table rest
        return options.append [(name, some value)]
      | some kind, none =>
        match rest with
        | [] => .error (.missingValue name)
        | value :: rest =>
          if looksLikeOption value then .error (.missingValue name)
          else do
            checkValue name value kind
            let options ← readOptions table rest
            return options.append [(name, some value)]
    else if looksLikeOption argument then do
      let given ← readLetters argument (argument.toList.drop 1)
      if helpIsGiven given then return ⟨given, []⟩
      let options ← readOptions table rest
      return options.append given
    else .ok ⟨[], argument :: rest⟩

def checkRepeated : List Given → Except UsageError Unit
  | [] => .ok ()
  | (name, _) :: rest =>
    if isGiven rest name then .error (.repeated name) else checkRepeated rest

def globalOptions : OptionTable := [("verbose", .flag), ("help", .flag)]

-- The options of a command, after which no other argument may stand.
def commandOptions (table : OptionTable) (arguments : List String) :
    Except UsageError (List Given) := do
  let options ← readOptions (globalOptions ++ table) arguments
  match options.rest with
  | argument :: _ => .error (.unexpectedArgument argument)
  | [] => do
    checkRepeated options.given
    return options.given

-- The value of the option that every command requires.
def requiredImage (given : List Given) : Except UsageError String :=
  match value? given "image" with
  | some path => .ok path
  | none => .error (.missingOption "image")

structure CommandForm where
  options : OptionTable
  -- The command with its options, and with all log lines or not.
  make (verbose : Bool) (given : List Given) : Except UsageError Command

/-- The form of the command `verify`, which shows more in its reports when all log lines are. -/
def verifyForm : CommandForm where
  options := [("image", .path), ("config", .path), ("skip-hash-checking", .flag),
    ("debug-buf", .flag), ("strict-keys", .flag), ("seed", .number)]
  make verbose given := do
    return .verify {
      image := ← requiredImage given
      config := value? given "config"
      options := {
        skipHashChecking := isGiven given "skip-hash-checking"
        verbose := verbose
        debugBuffer := isGiven given "debug-buf"
        strictKeys := isGiven given "strict-keys" }
      seed := (value? given "seed").bind numberOfText? }

def headerInfoForm : CommandForm where
  options := [("image", .path), ("section", .text)]
  make _ given := do return .headerInfo ⟨← requiredImage given, value? given "section"⟩

def dumpForm : CommandForm where
  options := [("image", .path)]
  make _ given := do return .dump ⟨← requiredImage given⟩

def form? : String → Option CommandForm
  | "verify" => some verifyForm
  | "headerinfo" => some headerInfoForm
  | "dump" => some dumpForm
  | _ => none

-- What the arguments behind the name of a command ask for.
def ofCommand (verbose : Bool) (name : String) (arguments : List String) :
    Except UsageError Invocation :=
  match form? name with
  | none => .error (.unknownCommand name)
  | some form => do
    let given ← commandOptions form.options arguments
    if helpIsGiven given then return .help
    let verbose := verbose || isGiven given "verbose"
    return .run verbose (← form.make verbose given)

/-- What the arguments behind `help` ask for: at most one topic, a command or `help` itself. -/
def ofTopics : List String → Except UsageError Invocation
  | [] => .ok .help
  | topic :: rest =>
    if topic != "help" && (form? topic).isNone then .error (.unknownCommand topic)
    else
      match rest with
      | [] => .ok .help
      | argument :: _ => .error (.unexpectedArgument argument)

/-- What a command line asks for. A global flag counts in front of the command and behind it. -/
def parse (arguments : List String) : Except UsageError Invocation := do
  let options ← readOptions globalOptions arguments
  checkRepeated options.given
  if helpIsGiven options.given then return .help
  let verbose := isGiven options.given "verbose"
  match options.rest with
  | [] => if verbose then .ok .noCommand else .error .noArguments
  | "help" :: topics => ofTopics topics
  | name :: arguments => ofCommand verbose name arguments

end Arguments

end SignedFlash
