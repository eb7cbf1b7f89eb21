import LedgerCodec.Json.Doc
import LedgerCodec.Txn.Fixed
import LedgerCodec.Error
/-!
# Problems of a JSON text

A text is either malformed, or well formed up to a value that is wrong for its
place. `Problem.message` words the latter; a malformed text has no message here.
-/

namespace LedgerCodec.Json

/-- What keeps a JSON text from being a value of a type. -/
inductive Problem
  | malformed
  | invalidType (found expected : String)
  | invalidValue (found : Int) (expected : String)
  | unknownField (name : String) (fields : List String)
  /-- A text is none of the names of a choice. -/
  | unknownVariant (name : String) (variants : List String)
  | duplicateField (name : String)
  | missingField (name : String)
  | invalidLength (length : Nat) (expected : String)
  | notHex (reason : Hex.Error)
  | wrongSize (role : Role) (actual : Nat)
  /-- The values are well formed and do not make what they should. -/
  | refused (reason : Error)
deriving DecidableEq, Repr

/-- A list of names to choose from. -/
def oneOf : List String → String
  | [] => "there are no fields"
  | [a] => "expected `" ++ a ++ "`"
  | [a, b] => "expected `" ++ a ++ "` or `" ++ b ++ "`"
  | names => "expected one of " ++ ", ".intercalate (names.map fun n => "`" ++ n ++ "`")

def elements (n : Nat) : String :=
  toString n ++ if n = 1 then " element" else " elements"

namespace Problem

/-- The wording of what is wrong with a well-formed text. -/
def reason? : Problem → Option String
  | malformed => none
  | invalidType found expected => some ("invalid type: " ++ found ++ ", expected " ++ expected)
  | invalidValue found expected =>
    some ("invalid value: integer `" ++ toString found ++ "`, expected " ++ expected)
  | unknownField name fields => some ("unknown field `" ++ name ++ "`, " ++ oneOf fields)
  | unknownVariant name variants => some ("unknown variant `" ++ name ++ "`, " ++ oneOf variants)
  | duplicateField name => some ("duplicate field `" ++ name ++ "`")
  | missingField name => some ("missing field `" ++ name ++ "`")
  | invalidLength length expected =>
    some ("invalid length " ++ toString length ++ ", expected " ++ expected)
  | notHex reason => some reason.message
  | wrongSize role actual =>
    some (role.label ++ ": expected " ++ toString role.size ++ " bytes, got " ++ toString actual)
  | refused reason => some reason.message

/-- The whole message. -/
def message? (p : Problem) : Option String :=
  p.reason?.map ("json error: " ++ ·)

end Problem

/-! ## Values of the wrong sort -/

/-- How a message names a value; none if the value cannot be held. -/
def Doc.described? : Doc → Option String
  | .null => some "null"
  | .bool b => some ("boolean `" ++ toString b ++ "`")
  | .number (.integer n) => some ("integer `" ++ toString n ++ "`")
  | .number (.real negative x) =>
    some ("floating point `" ++ (if negative then "-" else "") ++ x.text ++ "`")
  | .number .beyond => none
  | .text (some s) => some ("string " ++ Text.quote s)
  | .text none => none
  | .list _ _ => some "sequence"
  | .record _ _ => some "map"
  | .broken => none

/-- What is wrong with a value where another sort is expected. -/
def Doc.misfit (d : Doc) (expected : String) : Problem :=
  match d.described? with
  | some found => .invalidType found expected
  | none => .malformed

end LedgerCodec.Json
