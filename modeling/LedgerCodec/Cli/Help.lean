import LedgerCodec.Cli.Option
import LedgerCodec.Limits
import LedgerCodec.Text.Terminal
/-!
# Help pages

What `--help`, `-h` and `--version` print. The full page of the program and of
the command `id` says more than the summary; the other commands have one page.
Each page shows what the environment sets.
-/

namespace LedgerCodec.Cli

/-- The first line of the program's summary. -/
def about : String := "Ledger transaction encoder and ID calculator"

/-- What a command does. -/
def Verb.purpose : Verb → String
  | id => "Print the ID of a transaction"
  | encode => "Print the canonical encoding of a JSON transaction as hex"
  | decode => "Decode hex wire bytes into JSON"
  | group => "Compute the group ID of a JSON array of transactions"
  | version => "Print version information and exit"

/-- What the command `help` does. -/
def helpPurpose : String := "Print this message or the help of the given subcommand(s)"

/-! ## Options on a page -/

/-- How much a page says. -/
inductive Extent
  /-- One line for each option. -/
  | summary
  /-- A block for each option. -/
  | full
deriving DecidableEq

/-- The names of an option, and of its value. -/
def Flag.heading (f : Flag) : String :=
  (match f.letter? with
    | some c => "  " ++ Terminal.emphasize (String.ofList ['-', c]) ++ ", "
    | none => Terminal.spaces 6) ++
  Terminal.emphasize ("--" ++ f.name) ++
  match f.valueName? with
    | some v => " <" ++ v ++ ">"
    | none => ""

/-- What an option does, on a page of some extent that may have a counterpart. -/
def Flag.purpose (extent : Extent) (paired : Bool) : Flag → String
  | logFormat => "Log output format"
  | logLevel => "Default log filter when `RUST_LOG` is not set"
  | format => "How the transaction is encoded"
  | raw => "Print the raw 32-byte ID as hex instead of base-32"
  | signable => "Prefix the output with the \"TX\" domain tag (the bytes a signer signs)"
  | signed => "Treat the input as a signed transaction envelope"
  | assign => "Print the members with the group ID filled in, instead of the ID"
  | help =>
    match paired, extent with
    | false, _ => "Print help"
    | true, .summary => "Print help (see more with '--help')"
    | true, .full => "Print help (see a summary with '-h')"
  | version => "Print version"

/-- What a page says of the values that an option takes. -/
def Flag.notes (e : Environment) : Flag → List String
  | logFormat =>
    ["[env: LEDGER_TXN_LOG_FORMAT=" ++ e.logFormat.getD "" ++ "]", "[default: pretty]",
      "[possible values: pretty, json]"]
  | logLevel => ["[env: LEDGER_TXN_LOG=" ++ e.logLevel.getD "" ++ "]", "[default: warn]"]
  | format => ["[default: json]", "[possible values: json, hex]"]
  | _ => []

/-- The column in which a summary says what an option does. -/
def summaryColumn : Nat := 33

/-- The column in which a full page says what an option does. -/
def fullColumn : Nat := 10

/-- The line of an option in a summary. -/
def Flag.line (e : Environment) (paired : Bool) (f : Flag) : String :=
  f.heading ++ Terminal.spaces (summaryColumn - 6 - f.shown.length) ++
    Terminal.indent summaryColumn (" ".intercalate (f.purpose .summary paired :: f.notes e))

/-- The paragraphs of an option on a full page. -/
def Flag.paragraphs (e : Environment) (paired : Bool) (f : Flag) : List String :=
  match f, f.notes e with
  | .format, _ =>
    [f.purpose .full paired,
      "Possible values:\n- json: The JSON form\n- hex:  Hex of the canonical wire bytes\n\n" ++
        "[default: json]"]
  | _, [] => [f.purpose .full paired]
  | _, notes => [f.purpose .full paired ++ "\n\n" ++ "\n".intercalate notes]

/-- The block of an option on a full page. -/
def Flag.block (e : Environment) (paired : Bool) (f : Flag) : String :=
  f.heading ++ "\n" ++ "\n\n".intercalate ((f.paragraphs e paired).map fun s =>
    Terminal.spaces fullColumn ++ Terminal.indent fullColumn s)

/-- The options of a page, in the order in which it shows them. -/
def listedFlags : Option Verb → List Flag
  | some .id => [.format, .logFormat, .logLevel, .raw, .help, .version]
  | some .encode => [.logFormat, .signable, .logLevel, .signed, .help, .version]
  | some .decode => [.logFormat, .signed, .logLevel, .help, .version]
  | some .group => [.assign, .logFormat, .logLevel, .help, .version]
  | some .version => [.logFormat, .logLevel, .help, .version]
  | none => [.logFormat, .logLevel, .help, .version]

/-! ## Sections of a page -/

/-- What a page says of the options. -/
def optionsSection (e : Environment) (extent : Extent) (paired : Bool) (verb : Option Verb) :
    String :=
  "Options:\n" ++ match extent with
    | .summary => "\n".intercalate ((listedFlags verb).map (Flag.line e paired))
    | .full => "\n\n".intercalate ((listedFlags verb).map (Flag.block e paired))

/-- What the program's page says of the commands. -/
def commandsSection : String :=
  let line (name purpose : String) := "  " ++ name ++ Terminal.spaces (9 - name.length) ++ purpose
  "\n".intercalate ("Commands:" :: Verb.all.map (fun v => line v.name v.purpose) ++
    [line "help" helpPurpose])

/-- What a page says of the file. -/
def fileSection : Extent → String
  | .summary => "Arguments:\n  [FILE]  Input file. Reads stdin when omitted or `-`"
  | .full => "Arguments:\n  [FILE]\n" ++ Terminal.spaces fullColumn ++
      "Input file. Reads stdin when omitted or `-`"

def page (sections : List String) : String :=
  Terminal.plain ("\n\n".intercalate sections ++ "\n")

/-! ## Pages -/

def programPage (e : Environment) (extent : Extent) : String :=
  let head := match extent with
    | .summary => [about]
    | .full =>
      ["Ledger transaction inspector.",
        "Computes transaction IDs, converts between the JSON form and the canonical wire " ++
          "encoding, and links transactions into atomic groups."]
  page (head ++
    ["Usage: " ++ program ++ " [OPTIONS] <COMMAND>", commandsSection,
      optionsSection e extent true none])

def commandPage (e : Environment) (extent : Extent) (paired : Bool) (v : Verb) : String :=
  let usage := "Usage: " ++ program ++ " " ++ v.name ++ " [OPTIONS]"
  let rest := if v.takesFile then [usage ++ " [FILE]", fileSection extent] else [usage]
  page (v.purpose :: rest ++ [optionsSection e extent paired (some v)])

/-- The page of `help`. -/
def helpHelp : String :=
  page [helpPurpose, "Usage: " ++ program ++ " help [COMMAND]...",
    "Arguments:\n  [COMMAND]...  Print help for the subcommand(s)"]

/-- The help of a command, or of the program where no command is given. -/
def helpPage (e : Environment) (extent : Extent) : Option Verb → String
  | none => programPage e extent
  | some .id => commandPage e extent true .id
  | some v => commandPage e .summary false v

/-- The version of the program, under the name of a command if one is given. -/
def versionPage (verb : Option Verb) : String :=
  let name := match verb with
    | some v => program ++ "-" ++ v.name
    | none => program
  page [name ++ " " ++ version]

end LedgerCodec.Cli
