import LedgerCodec.Cli.Help
/-!
# Reading arguments

Arguments are read from left to right, first for the program and, from the name
of a command on, for that command. A value in an argument of its own is looked
at only when the next option, file or end shows that it is complete; a value
after `=` at once. Help and version are printed as soon as they are met. The
environment counts where the arguments of a level do not say otherwise.
-/

namespace LedgerCodec.Cli

/-- Where reading stops before a command can run. -/
inductive Stop
  | print (text : String)
  /-- The arguments are wrong; the line says how. A text that it quotes may break it. -/
  | refuse (line : String)
deriving DecidableEq, Repr

/-! ## What is refused -/

namespace Stop

/-- Refuses the arguments, with a message for a terminal. -/
def complain (message : String) : Stop :=
  .refuse (Terminal.plain ("error: " ++ message))

/-- A text between quotes in a message. -/
def quoted (s : String) : String :=
  "'" ++ Terminal.emphasize s ++ "'"

/-- An argument that nothing takes. -/
def unexpected (argument : String) : Stop :=
  complain ("unexpected argument " ++ quoted argument ++ " found")

/-- A word where a command is due. -/
def unknownCommand (word : String) : Stop :=
  complain ("unrecognized subcommand " ++ quoted word)

/-- A value that is missing or empty. -/
def missingValue (shown : String) : Stop :=
  complain ("a value is required for " ++ quoted shown ++ " but none was supplied")

/-- A value that is none of the choices. -/
def invalidValue (value : String) (f : Flag) : Stop :=
  complain ("invalid value " ++ quoted value ++ " for " ++ quoted f.shown)

/-- A value for an option that takes none. -/
def unneededValue (value : String) (f : Flag) : Stop :=
  complain ("unexpected value " ++ quoted value ++ " for " ++ quoted f.shown ++
    " found; no more were expected")

/-- An option given twice. -/
def repeated (f : Flag) : Stop :=
  complain ("the argument " ++ quoted f.shown ++ " cannot be used multiple times")

/-- Two options that exclude each other. -/
def conflict (first second : Flag) : Stop :=
  complain ("the argument " ++ quoted first.shown ++ " cannot be used with " ++
    quoted second.shown)

def noCommand : Stop :=
  complain (quoted program ++ " requires a subcommand but one was not provided")

end Stop

/-! ## One level -/

/-- What has been met and not been looked at. -/
inductive Waiting
  | nothing
  /-- An option, with its value if that has been met. -/
  | flag (f : Flag) (value : Option String)
  | file (path : String)
deriving DecidableEq

/-- What the arguments of the program, or of a command, have given so far. -/
structure Given where
  flags : List (Flag × Option String)
  file : Option String
  waiting : Waiting
  fileMet : Bool
  /-- Whether options have been ended by `--`. -/
  ended : Bool

namespace Given

def none : Given := ⟨[], .none, .nothing, false, false⟩

/-- Whether an option has been given. -/
def has (g : Given) (f : Flag) : Bool :=
  g.flags.any (·.1 = f)

/-- The value that an option has been given. -/
def valueOf? (g : Given) (f : Flag) : Option String :=
  (g.flags.lookup f).join

/-- Adds an option that may be given once. -/
def add (g : Given) (f : Flag) (value : Option String) : Except Stop Given :=
  if g.has f then .error (.repeated f) else .ok { g with flags := g.flags ++ [(f, value)] }

/-- Refuses a value that is none of an option's choices. -/
def checkChoice (f : Flag) (value : String) : Except Stop Unit :=
  match f.choices? with
  | some choices =>
    if choices.contains value then .ok ()
    else .error (if value.isEmpty then .missingValue f.shown else .invalidValue value f)
  | .none => .ok ()

/-- Adds an option with its value. -/
def addValue (g : Given) (f : Flag) (value : String) : Except Stop Given := do
  let g ← g.add f (some value)
  checkChoice f value
  .ok g

/-- Looks at what has been met. -/
def settle (g : Given) : Except Stop Given :=
  let rest := { g with waiting := .nothing }
  match g.waiting with
  | .nothing => .ok rest
  | .flag f .none => .error (.missingValue f.shown)
  | .flag f (some value) => rest.addValue f value
  | .file path =>
    if path.isEmpty then .error (.missingValue "[FILE]") else .ok { rest with file := some path }

/-- The option that waits for its value, if one does. -/
def awaiting? (g : Given) : Option Flag :=
  match g.waiting with
  | .flag f .none => some f
  | _ => .none

/-- Takes an option without a value. Help is of the extent that goes with the form of its name. -/
def takePlain (e : Environment) (verb : Option Verb) (extent : Extent) (g : Given) (f : Flag) :
    Except Stop Given := do
  let g ← g.settle
  match f with
  | .help => .error (.print (helpPage e extent verb))
  | .version => .error (.print (versionPage verb))
  | f => g.add f .none

/-- Takes an option that needs a value, with the value if it came with the option. -/
def takeValued (g : Given) (f : Flag) (value : Option String) : Except Stop Given := do
  let g ← g.settle
  match value with
  | some value => g.addValue f value
  | .none => .ok { g with waiting := .flag f .none }

/-- Takes an option by its long name, with the value after `=` if there is one. -/
def takeLong (e : Environment) (verb : Option Verb) (g : Given) (name : String)
    (value : Option String) : Except Stop Given :=
  match (flagsOf verb).find? fun f => f.name = name with
  | .none => .error (.unexpected ("--" ++ name))
  | some f =>
    match f.valueName?, value with
    | some _, value => g.takeValued f value
    | .none, some value => .error (.unneededValue value f)
    | .none, .none => takePlain e verb .full g f

/-- Takes options by their letters. What follows the letter of an option that needs a value is its
value, without a `=` in front. -/
def takeLetters (e : Environment) (verb : Option Verb) (g : Given) : List Char → Except Stop Given
  | [] => .ok g
  | c :: rest =>
    match (flagsOf verb).find? fun f => f.letter? = some c with
    | .none => .error (.unexpected (String.ofList ['-', c]))
    | some f =>
      match f.valueName? with
      | some _ =>
        let value := match rest with
          | [] => .none
          | '=' :: rest => some (String.ofList rest)
          | rest => some (String.ofList rest)
        g.takeValued f value
      | .none => do
        let g ← takePlain e verb .summary g f
        takeLetters e verb g rest

def isCommand (word : String) : Bool :=
  word = "help" || (Verb.ofName? word).isSome

/-- Takes a file, or refuses an argument that is none. The name of a command is no unknown command
after `--`, but it is not expected there. -/
def takeWord (verb : Option Verb) (g : Given) (word : String) : Except Stop Given :=
  match verb with
  | .none => .error (if g.ended && isCommand word then .unexpected word else .unknownCommand word)
  | some v =>
    if v.takesFile && !g.fileMet then do
      let g ← g.settle
      .ok { g with waiting := .file word, fileMet := true }
    else .error (.unexpected word)

/-- Takes one argument that names no command. -/
def take (e : Environment) (verb : Option Verb) (g : Given) (argument : String) :
    Except Stop Given :=
  if g.ended then g.takeWord verb argument
  else
    match argument.toList with
    | ['-', '-'] => .ok { g with ended := true }
    | '-' :: '-' :: long =>
      let name := String.ofList (long.takeWhile (· ≠ '='))
      let value := match long.dropWhile (· ≠ '=') with
        | [] => .none
        | _ :: value => some (String.ofList value)
      takeLong e verb g name value
    | '-' :: c :: letters => takeLetters e verb g (c :: letters)
    | _ =>
      match g.awaiting? with
      | some f => .ok { g with waiting := .flag f (some argument) }
      | .none => g.takeWord verb argument

/-- Takes arguments up to the name of a command, which only the program expects. Gives the name
and the arguments after it. -/
def takeAll (e : Environment) (verb : Option Verb) (g : Given) :
    List String → Except Stop (Given × Option (String × List String))
  | [] => .ok (g, .none)
  | argument :: rest =>
    if verb.isNone && !g.ended && g.awaiting?.isNone && isCommand argument then
      .ok (g, some (argument, rest))
    else do
      let g ← take e verb g argument
      takeAll e verb g rest

/-- Refuses a log format of the environment that counts and is none of the choices. -/
def checkEnvironment (e : Environment) (g : Given) : Except Stop Unit :=
  match e.logFormat with
  | some value => if g.has .logFormat then .ok () else checkChoice .logFormat value
  | .none => .ok ()

/-- Refuses options that exclude each other; the one given first is named first. -/
def checkConflicts (g : Given) : Except Stop Unit :=
  match (g.flags.map Prod.fst).filter fun f => f = .signed || f = .signable with
  | first :: second :: _ => .error (.conflict first second)
  | _ => .ok ()

/-- Looks at everything given once no argument is left. -/
def close (e : Environment) (g : Given) : Except Stop Given := do
  let g ← g.settle
  checkEnvironment e g
  checkConflicts g
  .ok g

end Given

/-! ## All arguments -/

/-- The page that the words after `help` ask for. -/
def helpFor (e : Environment) : List String → Stop
  | [] => .print (helpPage e .full none)
  | ["help"] => .print helpHelp
  | "help" :: word :: _ => .unknownCommand word
  | [word] =>
    match Verb.ofName? word with
    | some v => .print (helpPage e .full (some v))
    | none => .unknownCommand word
  | word :: next :: _ => .unknownCommand (if (Verb.ofName? word).isSome then next else word)

/-- What stands for the command where none is given. -/
def withoutCommand (e : Environment) (g : Given) : Stop :=
  if g.flags.isEmpty && e.logFormat.isNone && e.logLevel.isNone then .refuse about else .noCommand

/-- The command that the arguments give, with what they give it. -/
def readArguments (e : Environment) (arguments : List String) : Except Stop (Verb × Given) := do
  let (program, found) ← Given.takeAll e none Given.none arguments
  match found with
  | none => do
    let program ← program.close e
    .error (withoutCommand e program)
  | some (word, rest) =>
    match Verb.ofName? word with
    | none => .error (helpFor e rest)
    | some verb => do
      let (given, _) ← Given.takeAll e (some verb) Given.none rest
      let given ← given.close e
      let _ ← program.close e
      .ok (verb, given)

end LedgerCodec.Cli
