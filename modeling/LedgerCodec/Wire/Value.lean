import LedgerCodec.Bytes
/-!
# Wire values

The tree that a byte string of the wire format stands for. Maps keep the order
of their entries and may repeat a key; who reads a record decides about that.
-/

namespace LedgerCodec.Wire

inductive Value
  | nil
  | bool (b : Bool)
  | uint (n : UInt64)
  /-- A signed integer; reading makes only negative ones. -/
  | int (n : Int64)
  | str (s : String)
  | bin (bs : Bytes)
  | array (items : List Value)
  /-- Entries of text keys and values, in the order of the wire. -/
  | map (entries : List (String × Value))
deriving Repr, Inhabited, BEq

namespace Value

/-- The name of a value's sort. -/
def kind : Value → String
  | nil => "nil"
  | bool _ => "bool"
  | uint _ => "integer"
  | int _ => "integer"
  | str _ => "string"
  | bin _ => "binary"
  | array _ => "array"
  | map _ => "map"

mutual

/-- Whether a value is zero, whatever field holds it: nothing, `false`, zero, an empty text or
list, a blob of no bytes or of zero bytes, a map of nothing but such values. -/
def isZero : Value → Bool
  | nil => true
  | bool b => !b
  | uint n => n == 0
  | int n => n == 0
  | str s => s.isEmpty
  | bin bs => bs.allZero
  | array items => items.isEmpty
  | map entries => entriesZero entries
termination_by structural v => v

def entriesZero : List (String × Value) → Bool
  | [] => true
  | entry :: entries => entryZero entry && entriesZero entries
termination_by structural entries => entries

def entryZero : String × Value → Bool
  | (_, v) => v.isZero
termination_by structural entry => entry

end

end Value

end LedgerCodec.Wire
