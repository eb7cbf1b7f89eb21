import LedgerCodec.Wire.Value
import LedgerCodec.Text.Utf8
/-!
# Writing wire values

Every number, length and container header is written in its shortest form.
Lengths of 2^32 and more keep their low 32 bits, in the widest form.
-/

namespace LedgerCodec.Wire

/-! ## The forms -/

/-- An integer from zero on, in the shortest of five forms. -/
def writeUint (n : UInt64) : Bytes :=
  let n := n.toNat
  if n < 0x80 then [UInt8.ofNat n]
  else if n < 0x100 then 0xcc :: Bytes.toBigEndian 1 n
  else if n < 0x10000 then 0xcd :: Bytes.toBigEndian 2 n
  else if n < 0x100000000 then 0xce :: Bytes.toBigEndian 4 n
  else 0xcf :: Bytes.toBigEndian 8 n

/-- A negative integer, in the shortest of five forms. -/
def writeNegative (n : Int64) : Bytes :=
  let n := n.toInt
  let low := (n % 0x10000000000000000).toNat
  if -0x20 ≤ n then Bytes.toBigEndian 1 low
  else if -0x80 ≤ n then 0xd0 :: Bytes.toBigEndian 1 low
  else if -0x8000 ≤ n then 0xd1 :: Bytes.toBigEndian 2 low
  else if -0x80000000 ≤ n then 0xd2 :: Bytes.toBigEndian 4 low
  else 0xd3 :: Bytes.toBigEndian 8 low

def writeBool (b : Bool) : Bytes :=
  [if b then 0xc3 else 0xc2]

def strHeader (length : Nat) : Bytes :=
  if length < 32 then [0xa0 + UInt8.ofNat length]
  else if length < 0x100 then 0xd9 :: Bytes.toBigEndian 1 length
  else if length < 0x10000 then 0xda :: Bytes.toBigEndian 2 length
  else 0xdb :: Bytes.toBigEndian 4 length

def binHeader (length : Nat) : Bytes :=
  if length < 0x100 then 0xc4 :: Bytes.toBigEndian 1 length
  else if length < 0x10000 then 0xc5 :: Bytes.toBigEndian 2 length
  else 0xc6 :: Bytes.toBigEndian 4 length

def arrayHeader (length : Nat) : Bytes :=
  if length < 16 then [0x90 + UInt8.ofNat length]
  else if length < 0x10000 then 0xdc :: Bytes.toBigEndian 2 length
  else 0xdd :: Bytes.toBigEndian 4 length

def mapHeader (length : Nat) : Bytes :=
  if length < 16 then [0x80 + UInt8.ofNat length]
  else if length < 0x10000 then 0xde :: Bytes.toBigEndian 2 length
  else 0xdf :: Bytes.toBigEndian 4 length

def writeStr (s : String) : Bytes :=
  let bs := utf8 s
  strHeader bs.length ++ bs

def writeBin (bs : Bytes) : Bytes :=
  binHeader bs.length ++ bs

/-! ## Whole values -/

namespace Value

mutual

/-- Puts the bytes of a value in front of `written`, which holds those before it, last first. -/
def emit : Value → (written : Bytes) → Bytes
  | nil, written => 0xc0 :: written
  | bool b, written => (writeBool b).reverseAux written
  | uint n, written => (writeUint n).reverseAux written
  | int n, written =>
    (if n < 0 then writeNegative n else writeUint n.toUInt64).reverseAux written
  | str s, written => (writeStr s).reverseAux written
  | bin bs, written => (writeBin bs).reverseAux written
  | array items, written => emitItems items ((arrayHeader items.length).reverseAux written)
  | map entries, written => emitEntries entries ((mapHeader entries.length).reverseAux written)
termination_by structural v => v

/-- Puts the bytes of the items in front, the first one's first. -/
def emitItems : List Value → (written : Bytes) → Bytes
  | [], written => written
  | item :: items, written => emitItems items (item.emit written)
termination_by structural items => items

/-- Puts the bytes of the entries in front, the first one's first. -/
def emitEntries : List (String × Value) → (written : Bytes) → Bytes
  | [], written => written
  | entry :: entries, written => emitEntries entries (emitEntry entry written)
termination_by structural entries => entries

/-- Puts the bytes of a key and its value in front. -/
def emitEntry : String × Value → (written : Bytes) → Bytes
  | (key, v), written => v.emit ((writeStr key).reverseAux written)
termination_by structural entry => entry

end

def write (v : Value) : Bytes :=
  (v.emit []).reverse

end Value

end LedgerCodec.Wire
