import LedgerCodec.Cli.Command
/-!
# The program

Reads the arguments, the settings of the environment and the input that a
command asks for, and prints what `plan` and `complete` make of them.
-/

namespace LedgerCodec.Cli

/-- The settings of the environment. -/
def readEnvironment : IO Environment := do
  let logFormat ← IO.getEnv "LEDGER_TXN_LOG_FORMAT"
  let logLevel ← IO.getEnv "LEDGER_TXN_LOG"
  return { logFormat, logLevel }

/-- All bytes that are left of a stream, after those already read. -/
partial def readStream (input : IO.FS.Stream) (read : ByteArray) : IO ByteArray := do
  let chunk ← input.read 65536
  if chunk.isEmpty then return read
  readStream input (read ++ chunk)

def readBytes : Source → IO ByteArray
  | .standard => do readStream (← IO.getStdin) ByteArray.empty
  | .file path => IO.FS.readBinFile path

/-- The reason why a source cannot be read. -/
def reasonOf : IO.Error → String
  | .noFileOrDirectory _ _ _ => "No such file or directory (os error 2)"
  | .permissionDenied _ _ _ => "Permission denied (os error 13)"
  | .inappropriateType _ code details => details ++ " (os error " ++ toString code ++ ")"
  | .otherError code details => details ++ " (os error " ++ toString code ++ ")"
  | other => toString other

/-- The text of a source, or the reason why there is none. -/
def readText (source : Source) : IO (Except String String) := do
  match ← (readBytes source).toBaseIO with
  | .ok bytes => return textOf bytes.toList
  | .error e => return .error (reasonOf e)

end LedgerCodec.Cli

open LedgerCodec.Cli in
def main (arguments : List String) : IO UInt32 := do
  let outcome ← match plan (← readEnvironment) arguments with
    | .error outcome => pure outcome
    | .ok (task, source) => do pure (complete task source (← readText source))
  IO.print outcome.output
  IO.eprint outcome.complaint
  return outcome.status
