/-!
# Commands and options

The commands of the command line, the options that each of them takes, and how
messages name them.
-/

namespace LedgerCodec.Cli

def program : String := "ledger-txn"

inductive Verb
  | id
  | encode
  | decode
  | group
  | version
deriving DecidableEq, Repr

namespace Verb

/-- All commands, in the order in which help lists them. -/
def all : List Verb := [id, encode, decode, group, version]

def name : Verb → String
  | id => "id"
  | encode => "encode"
  | decode => "decode"
  | group => "group"
  | version => "version"

def ofName? (s : String) : Option Verb :=
  all.find? fun v => v.name = s

/-- Whether a command reads an input, and so takes a file. -/
def takesFile : Verb → Bool
  | version => false
  | _ => true

end Verb

inductive Flag
  | logFormat
  | logLevel
  | format
  | raw
  | signable
  | signed
  | assign
  | help
  | version
deriving DecidableEq, Repr

namespace Flag

/-- The long name of an option. -/
def name : Flag → String
  | logFormat => "log-format"
  | logLevel => "log-level"
  | format => "format"
  | raw => "raw"
  | signable => "signable"
  | signed => "signed"
  | assign => "assign"
  | help => "help"
  | version => "version"

/-- The letter of an option, if it has one. -/
def letter? : Flag → Option Char
  | format => some 'f'
  | help => some 'h'
  | version => some 'V'
  | _ => none

/-- The name of the option's value, if it takes one. -/
def valueName? : Flag → Option String
  | logFormat => some "LOG_FORMAT"
  | logLevel => some "LOG_LEVEL"
  | format => some "FORMAT"
  | _ => none

/-- The values to choose from; none if any value will do. -/
def choices? : Flag → Option (List String)
  | logFormat => some ["pretty", "json"]
  | format => some ["json", "hex"]
  | _ => none

/-- How a message names an option. -/
def shown (f : Flag) : String :=
  "--" ++ f.name ++ match f.valueName? with
    | some v => " <" ++ v ++ ">"
    | none => ""

/-- The options that stand before the command as well as after it. -/
def everywhere : List Flag := [logFormat, logLevel, help, version]

end Flag

/-- The options of a command, or of the program where no command is given. -/
def flagsOf : Option Verb → List Flag
  | some .id => [.format, .raw] ++ Flag.everywhere
  | some .encode => [.signable, .signed] ++ Flag.everywhere
  | some .decode => [.signed] ++ Flag.everywhere
  | some .group => [.assign] ++ Flag.everywhere
  | some .version => Flag.everywhere
  | none => Flag.everywhere

/-- The settings that come from outside the arguments. -/
structure Environment where
  logFormat : Option String
  logLevel : Option String
deriving DecidableEq

end LedgerCodec.Cli
