import LedgerCodec.Txn.Type
import LedgerCodec.Bytes.Hex
/-!
# Errors

What can be wrong with bytes, ids and groups that come from outside. Building,
encoding and hashing a transaction never fail. `Error.message` is the only place
that words an error.
-/

namespace LedgerCodec

/-- What is wrong with data from outside. -/
inductive Error
  | unexpectedEnd
  /-- A value begins with a byte that no accepted form begins with. -/
  | unsupportedMarker (marker : UInt8)
  | trailingBytes (count : Nat)
  | nestingTooDeep (limit : Nat)
  | nonTextKey
  | invalidUtf8
  | duplicateField (key : String)
  | unexpectedType (key expected : String)
  | outOfRange (key : String) (value : UInt64)
  | wrongLength (key : String) (expected actual : Nat)
  | unknownField (key : String)
  | missingType
  | unknownType (tag : String)
  /-- A transaction holds a non-zero field of another type than its own. -/
  | fieldNotAllowed (key : String) (type : TxnType)
  | invalidId (text : String)
  | emptyGroup
  | groupTooLarge (size limit : Nat)
deriving DecidableEq, Repr

namespace Error

def message : Error → String
  | unexpectedEnd => "unexpected end of input"
  | unsupportedMarker marker => "unsupported marker byte 0x" ++ Hex.encode [marker]
  | trailingBytes count => toString count ++ " trailing bytes after encoded value"
  | nestingTooDeep limit => "nesting deeper than " ++ toString limit ++ " levels"
  | nonTextKey => "map key is not a string"
  | invalidUtf8 => "invalid UTF-8 in string value"
  | duplicateField key => "duplicate field `" ++ key ++ "`"
  | unexpectedType key expected => "field `" ++ key ++ "`: expected " ++ expected
  | outOfRange key value =>
    "field `" ++ key ++ "`: value " ++ toString value.toNat ++ " out of range"
  | wrongLength key expected actual =>
    "field `" ++ key ++ "`: expected " ++ toString expected ++ " bytes, got " ++ toString actual
  | unknownField key => "unknown field `" ++ key ++ "`"
  | missingType => "transaction type is missing"
  | unknownType tag => "unknown transaction type `" ++ tag ++ "`"
  | fieldNotAllowed key type =>
    "field `" ++ key ++ "` is not carried by " ++ type.tag ++ " transactions"
  | invalidId text => "invalid transaction id `" ++ text ++ "`"
  | emptyGroup => "transaction group is empty"
  | groupTooLarge size limit =>
    "transaction group has " ++ toString size ++ " members (max " ++ toString limit ++ ")"

end Error

/-- The type with a tag; the empty tag counts as none given. -/
def TxnType.parse (tag : String) : Except Error TxnType :=
  if tag = "" then .error .missingType
  else match ofTag? tag with
    | some t => .ok t
    | none => .error (.unknownType tag)

end LedgerCodec
