import LedgerCodec.Wire.Reader
import LedgerCodec.Record.Entries
/-!
# Reading a record field by field

`Pending` holds the entries of one map that have not been read yet, sorted by
key, no key twice. Reading a field removes its entry, whatever comes of it, so
that what is left at the end are the entries nobody asked for. A field that is
absent, or holds nothing, reads as the zero of its type.
-/

namespace LedgerCodec

open Wire

/-- How a type's values are read from a record. -/
structure Reader (τ : Type) where
  read : (key : String) → Value → Except Error τ
  /-- What the field `key` reads as when it is absent or holds nothing. -/
  absent : (key : String) → Except Error τ

/-- The entries of one map that have not been read yet. -/
structure Pending where
  entries : List (String × Value)
deriving BEq

/-- The first key that one of the keys before it equals; `seen` holds keys before all of them. -/
def firstRepeated : (seen : List String) → List String → Option String
  | _, [] => none
  | seen, key :: keys => if seen.contains key then some key else firstRepeated (key :: seen) keys

namespace Pending

def empty : Pending := ⟨[]⟩

/-- All entries of a map; nothing counts as the map without entries. `key` is the field that holds
the map. -/
def ofValue (key : String) : Value → Except Error Pending
  | .map entries =>
    match firstRepeated [] (entries.map Prod.fst) with
    | some repeated => .error (.duplicateField repeated)
    | none => .ok ⟨sortByKey entries⟩
  | .nil => .ok empty
  | _ => .error (.unexpectedType key "map")

/-- The value of an entry, if it is there and holds something. -/
def find? (key : String) (p : Pending) : Option Value :=
  match p.entries.lookup key with
  | some .nil => none
  | found => found

/-- The entries other than that of a key. -/
def erase (key : String) (p : Pending) : Pending :=
  ⟨p.entries.filter (·.1 != key)⟩

def read {τ : Type} (r : Reader τ) (key : String) (p : Pending) : Except Error τ × Pending :=
  let result := match p.find? key with
    | some v => r.read key v
    | none => r.absent key
  (result, p.erase key)

/-- Takes out all entries that are left, in the order of their keys. -/
def drain (p : Pending) : List (String × Value) × Pending :=
  (p.entries, empty)

/-- Refuses entries that are left. -/
def finish (p : Pending) : Except Error Unit :=
  match p.entries with
  | [] => .ok ()
  | (key, _) :: _ => .error (.unknownField key)

end Pending

/-! ## What a field may hold -/

namespace Reader

def uint : Reader UInt64 where
  read
    | _, .uint n => .ok n
    | key, _ => .error (.unexpectedType key "unsigned integer")
  absent _ := .ok 0

/-- A number below a bound. -/
def narrow {τ : Type} (bound : Nat) (ofNat : Nat → τ) : Reader τ where
  read key v := do
    let n ← uint.read key v
    if n.toNat < bound then .ok (ofNat n.toNat) else .error (.outOfRange key n)
  absent _ := .ok (ofNat 0)

def bool : Reader Bool where
  read
    | _, .bool b => .ok b
    | key, _ => .error (.unexpectedType key "bool")
  absent _ := .ok false

def text : Reader String where
  read
    | _, .str s => .ok s
    | key, _ => .error (.unexpectedType key "string")
  absent _ := .ok ""

/-- A blob of any length. A text stands for its bytes. -/
def blob : Reader Bytes where
  read
    | _, .bin bs => .ok bs
    | _, .str s => .ok (utf8 s)
    | _, .nil => .ok []
    | key, _ => .error (.unexpectedType key "binary")
  absent _ := .ok []

/-- A blob of fixed length. The empty blob reads as zeros. -/
def sized (n : Nat) : Reader (Sized n) where
  read key v := do
    let bs ← blob.read key v
    if bs.isEmpty then .ok (.zero n)
    else match Sized.ofBytes? n bs with
      | some s => .ok s
      | none => .error (.wrongLength key n bs.length)
  absent _ := .ok (.zero n)

def list {τ : Type} (item : Reader τ) : Reader (List τ) where
  read
    | key, .array items => items.mapM (item.read key)
    | key, _ => .error (.unexpectedType key "array")
  absent _ := .ok []

end Reader

end LedgerCodec
