import LedgerCodec.Bytes.Sized
import LedgerCodec.Wire.Writer
/-!
# The entries of a record

A record is encoded as one map. `Entries` collects its fields, in the order in
which the record names them, and holds the two rules that make the encoding
canonical: a field that is zero leaves no entry, and the entries are written in
ascending order of the bytes of their keys.
-/

namespace LedgerCodec

open Wire

/-- How a type's values stand in a record. -/
structure Writer (τ : Type) where
  write : τ → Value
  /-- Whether a value is left out. -/
  isZero : τ → Bool

/-! ## The order of keys -/

/-- Whether the bytes of one key come before those of another. -/
def keyBefore (a b : String) : Bool :=
  decide (utf8 a < utf8 b)

/-- Puts an entry into a list sorted by key. -/
def insertByKey {α : Type} (entry : String × α) : List (String × α) → List (String × α)
  | [] => [entry]
  | first :: rest =>
    if keyBefore first.1 entry.1 then first :: insertByKey entry rest else entry :: first :: rest

def sortByKey {α : Type} (entries : List (String × α)) : List (String × α) :=
  entries.foldr insertByKey []

/-! ## Collecting entries -/

/-- The entries of one record, in the order in which they were pushed. -/
structure Entries where
  list : List (String × Value)
deriving BEq

namespace Entries

def empty : Entries := ⟨[]⟩

/-- Adds a field, unless it is zero. -/
def push {τ : Type} (w : Writer τ) (key : String) (x : τ) (es : Entries) : Entries :=
  if w.isZero x then es else ⟨es.list ++ [(key, w.write x)]⟩

def append (first second : Entries) : Entries :=
  ⟨first.list ++ second.list⟩

def size (es : Entries) : Nat :=
  es.list.length

/-- Whether every field was zero. -/
def isEmpty (es : Entries) : Bool :=
  es.list.isEmpty

/-- The keys, in the order in which they were pushed. -/
def keys (es : Entries) : List String :=
  es.list.map Prod.fst

/-- The map of the entries, sorted by key. -/
def toValue (es : Entries) : Value :=
  .map (sortByKey es.list)

def toBytes (es : Entries) : Bytes :=
  es.toValue.write

end Entries

/-! ## What a field may hold -/

namespace Writer

def uint : Writer UInt64 := ⟨.uint, (· == 0)⟩

def bool : Writer Bool := ⟨.bool, (!·)⟩

def text : Writer String := ⟨.str, (·.isEmpty)⟩

def blob : Writer Bytes := ⟨.bin, (·.isEmpty)⟩

def sized (n : Nat) : Writer (Sized n) := ⟨fun s => .bin s.bytes, Sized.isZero⟩

def record : Writer Entries := ⟨Entries.toValue, Entries.isEmpty⟩

/-- A list. Its items are written even if they are zero: their places count. -/
def list {τ : Type} (item : Writer τ) : Writer (List τ) :=
  ⟨fun xs => .array (xs.map item.write), (·.isEmpty)⟩

end Writer

end LedgerCodec
