import LedgerCodec.Bytes.Base32
import LedgerCodec.Hash.Domain
/-!
# Transaction ids

An id is a hash of 32 bytes. Its text is in base-32, 52 characters long. Reading
base-32 folds case, so the alphabet is checked before, and each id has one text.
-/

namespace LedgerCodec

structure TxnId where
  digest : Digest
deriving DecidableEq

namespace TxnId

def bytes (id : TxnId) : Bytes :=
  id.digest.bytes

def text (id : TxnId) : String :=
  Base32.encode id.digest.bytes

/-- Whether a text has the length of ids and no bytes but of the alphabet. -/
def hasShape (text : String) : Bool :=
  let bs := utf8 text
  bs.length == Base32.textLength && bs.all Base32.isDigit

/-- The id with a text. -/
def ofText (text : String) : Except Error TxnId :=
  if hasShape text then
    match (Base32.decode? text).bind (Fixed.ofBytes? .digest) with
    | some digest => .ok ⟨digest⟩
    | none => .error (.invalidId text)
  else .error (.invalidId text)

/-- How an id stands in JSON: as its text. -/
def form : Json.Form TxnId where
  write id := .text id.text
  read _ d := do
    let s ← Json.Form.readText "a string" d
    (ofText s).mapError .refused

instance : JsonForm TxnId := ⟨form⟩

end TxnId

end LedgerCodec
