import LedgerCodec.Cli.Arguments
import LedgerCodec.Txn.Envelope
import LedgerCodec.Txn.Group
import LedgerCodec.Text.Blank
/-!
# Commands

What each command makes of its input. A command reads one text and prints one
text, or fails with a context and a cause.
-/

namespace LedgerCodec.Cli

/-- How a transaction is given. -/
inductive InputFormat
  | json
  /-- As its canonical bytes, in hexadecimal. -/
  | hex
deriving DecidableEq, Repr

/-- What a command does to its input. -/
inductive Task
  | id (format : InputFormat) (raw : Bool)
  | encode
  | encodeSignable
  | encodeSigned
  | decode
  | decodeSigned
  | group
  | assign
deriving DecidableEq, Repr

/-- Where the input comes from. -/
inductive Source
  | standard
  | file (path : String)
deriving DecidableEq, Repr

/-- What the arguments ask for. -/
inductive Request
  | version
  | perform (task : Task) (source : Source)
deriving DecidableEq, Repr

/-- What a command asks for with what it has been given. -/
def request (verb : Verb) (g : Given) : Request :=
  let source := match g.file with
    | none => .standard
    | some "-" => .standard
    | some path => .file path
  match verb with
  | .id =>
    let format := if g.valueOf? .format = some "hex" then .hex else .json
    .perform (.id format (g.has .raw)) source
  | .encode =>
    .perform (if g.has .signed then .encodeSigned
      else if g.has .signable then .encodeSignable else .encode) source
  | .decode => .perform (if g.has .signed then .decodeSigned else .decode) source
  | .group => .perform (if g.has .assign then .assign else .group) source
  | .version => .version

/-! ## Failures -/

/-- Why a command fails. -/
inductive Failure
  | unreadable (source : Source) (reason : String)
  | notHex (reason : Hex.Error)
  | transactionJson (reason : Json.Problem)
  | transactionBytes (reason : Error)
  | envelopeJson (reason : Json.Problem)
  | envelopeBytes (reason : Error)
  | groupJson (reason : Json.Problem)
  | notGrouped (reason : Error)
  | notAssigned (reason : Error)
deriving DecidableEq, Repr

namespace Failure

/-- What was tried. -/
def context : Failure → String
  | unreadable (.file path) _ => "failed to read input file " ++ path
  | unreadable .standard _ => "failed to read stdin"
  | notHex _ => "input is not valid hex"
  | transactionJson _ => "failed to parse transaction JSON"
  | transactionBytes _ => "failed to decode transaction"
  | envelopeJson _ => "failed to parse signed transaction JSON"
  | envelopeBytes _ => "failed to decode signed transaction"
  | groupJson _ => "expected a JSON array of transactions"
  | notGrouped _ => "failed to compute group ID"
  | notAssigned _ => "failed to assign group ID"

/-- Why it did not work. A malformed JSON text has no wording. -/
def cause? : Failure → Option String
  | unreadable _ reason => some reason
  | notHex reason => some reason.message
  | transactionJson reason => reason.reason?
  | transactionBytes reason => some reason.message
  | envelopeJson reason => reason.reason?
  | envelopeBytes reason => some reason.message
  | groupJson reason => reason.reason?
  | notGrouped reason => some reason.message
  | notAssigned reason => some reason.message

/-- The column in which a cause is printed. -/
def causeColumn : Nat := 4

/-- The cause as it is printed, from its column on: a text that it quotes may break it, and every
line begins in that column. -/
def printedCause? (failure : Failure) : Option String :=
  failure.cause?.map (Terminal.indent causeColumn)

end Failure

/-! ## Doing it -/

/-- The bytes that an input shows in hexadecimal, blanks at its ends aside. -/
def readHex (input : String) : Except Failure Bytes :=
  (Hex.decode (Text.trim input)).mapError .notHex

/-- The transaction of an input. -/
def readTransaction (format : InputFormat) (input : String) : Except Failure Transaction :=
  match format with
  | .json => (ofJson input).mapError .transactionJson
  | .hex => do (decode (← readHex input)).mapError .transactionBytes

/-- The signed transaction of an input in JSON. -/
def readEnvelope (input : String) : Except Failure Envelope :=
  (ofJson input).mapError .envelopeJson

/-- The transactions of an input. -/
def readTransactions (input : String) : Except Failure (List Transaction) :=
  ((Json.Form.list Transaction.form).parse input).mapError .groupJson

/-- The text that a task prints for an input. -/
def perform (task : Task) (input : String) : Except Failure String :=
  match task with
  | .id format raw => do
    let id := (← readTransaction format input).id
    .ok (if raw then Hex.encode id.bytes else id.text)
  | .encode => do
    .ok (Hex.encode (LedgerCodec.encode (← readTransaction .json input)))
  | .encodeSignable => do
    .ok (Hex.encode (← readTransaction .json input).signable)
  | .encodeSigned => do
    .ok (Hex.encode (LedgerCodec.encode (← readEnvelope input)))
  | .decode => do
    let t ← readTransaction .hex input
    .ok (toJson t).pretty
  | .decodeSigned => do
    let bs ← readHex input
    let e : Envelope ← (LedgerCodec.decode bs).mapError .envelopeBytes
    .ok (toJson e).pretty
  | .group => do
    let d ← (Group.compute (← readTransactions input)).mapError .notGrouped
    .ok (Hex.encode d.bytes)
  | .assign => do
    let ts ← (Group.assign (← readTransactions input)).mapError .notAssigned
    .ok (Json.list (ts.map toJson)).pretty

/-- The text that shows the versions of the program and of the library. -/
def versions : String :=
  program ++ " " ++ LedgerCodec.version ++ "\nlibrary    " ++ LedgerCodec.version

/-! ## What the program does -/

/-- What the program prints and how it ends. -/
inductive Outcome
  | printed (text : String)
  /-- The arguments are wrong; the first line of the complaint. -/
  | refused (line : String)
  | failed (failure : Failure)
deriving DecidableEq, Repr

namespace Outcome

/-- The status with which the program ends. -/
def status : Outcome → UInt32
  | printed _ => 0
  | failed _ => 1
  | refused _ => 2

/-- What is printed to standard output. -/
def output : Outcome → String
  | printed text => text
  | _ => ""

/-- What is printed to standard error. -/
def complaint : Outcome → String
  | printed _ => ""
  | refused line => line ++ "\n"
  | failed failure =>
    "Error: " ++ failure.context ++ "\n" ++ match failure.printedCause? with
      | some cause => "\nCaused by:\n" ++ Terminal.spaces Failure.causeColumn ++ cause ++ "\n"
      | none => ""

end Outcome

/-- What the arguments lead to before any input is read: an outcome, or a task and its source. -/
def plan (e : Environment) (arguments : List String) : Except Outcome (Task × Source) :=
  match readArguments e arguments with
  | .error (.print text) => .error (.printed text)
  | .error (.refuse line) => .error (.refused line)
  | .ok (verb, g) =>
    match request verb g with
    | .version => .error (.printed (versions ++ "\n"))
    | .perform task source => .ok (task, source)

/-- What a task leads to, given the text of its source or the reason why there is none. -/
def complete (task : Task) (source : Source) : Except String String → Outcome
  | .error reason => .failed (.unreadable source reason)
  | .ok input =>
    match perform task input with
    | .ok text => .printed (text ++ "\n")
    | .error failure => .failed failure

/-- What the program does with its arguments. `read` gives the text of a source, or the reason why
there is none. -/
def run (e : Environment) (arguments : List String) (read : Source → Except String String) :
    Outcome :=
  match plan e arguments with
  | .error outcome => outcome
  | .ok (task, source) => complete task source (read source)

/-- Takes bytes that have been read as a text. -/
def textOf (bs : Bytes) : Except String String :=
  match ofUtf8? bs with
  | some text => .ok text
  | none => .error "stream did not contain valid UTF-8"

end LedgerCodec.Cli
