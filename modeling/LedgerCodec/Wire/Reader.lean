import LedgerCodec.Wire.Value
import LedgerCodec.Error
import LedgerCodec.Limits
/-!
# Reading wire values

Reading accepts more than writing makes: numbers and lengths in any width,
signed integers, nothing. It refuses floats and extension types, keys that are
no texts, containers nested beyond the limit, and bytes after the value. The
first problem in the order of the bytes is the one reported.
-/

namespace LedgerCodec.Wire

/-! ## The first byte -/

/-- What the first byte of a value says about it. Widths are those of the number or the length
that follows. -/
inductive Head
  | nil
  | bool (b : Bool)
  | smallUint (n : UInt8)
  /-- A small negative integer, in two's complement. -/
  | smallInt (n : UInt8)
  | uint (width : Nat)
  /-- An integer in two's complement. -/
  | int (width : Nat)
  | smallStr (length : Nat)
  | str (width : Nat)
  | bin (width : Nat)
  | smallArray (length : Nat)
  | array (width : Nat)
  | smallMap (length : Nat)
  | map (width : Nat)
  | unsupported
deriving DecidableEq, Repr

def Head.ofByte (b : UInt8) : Head :=
  if b < 0x80 then .smallUint b
  else if b < 0x90 then .smallMap (b.toNat - 0x80)
  else if b < 0xa0 then .smallArray (b.toNat - 0x90)
  else if b < 0xc0 then .smallStr (b.toNat - 0xa0)
  else if 0xe0 ≤ b then .smallInt b
  else match b.toNat with
    | 0xc0 => .nil
    | 0xc2 => .bool false
    | 0xc3 => .bool true
    | 0xc4 => .bin 1
    | 0xc5 => .bin 2
    | 0xc6 => .bin 4
    | 0xcc => .uint 1
    | 0xcd => .uint 2
    | 0xce => .uint 4
    | 0xcf => .uint 8
    | 0xd0 => .int 1
    | 0xd1 => .int 2
    | 0xd2 => .int 4
    | 0xd3 => .int 8
    | 0xd9 => .str 1
    | 0xda => .str 2
    | 0xdb => .str 4
    | 0xdc => .array 2
    | 0xdd => .array 4
    | 0xde => .map 2
    | 0xdf => .map 4
    | _ => .unsupported

/-! ## Steps

A step takes what it needs from the front of the bytes and gives the rest. -/

/-- The next `count` bytes. -/
def take (count : Nat) (bs : Bytes) : Except Error (Bytes × Bytes) :=
  if bs.hasAtLeast count then .ok (bs.take count, bs.drop count) else .error .unexpectedEnd

/-- The number in the next `width` bytes. -/
def takeNat (width : Nat) (bs : Bytes) : Except Error (Nat × Bytes) := do
  let (digits, rest) ← take width bs
  .ok (Bytes.ofBigEndian digits, rest)

/-- A number of `width` bytes in two's complement. -/
def signed (width : Nat) (n : Nat) : Value :=
  if n < Bytes.capacity width / 2 then .uint (UInt64.ofNat n)
  else .int (Int64.ofInt ((n : Int) - Bytes.capacity width))

def takeStr (length : Nat) (bs : Bytes) : Except Error (Value × Bytes) := do
  let (raw, rest) ← take length bs
  match ofUtf8? raw with
  | some s => .ok (.str s, rest)
  | none => .error .invalidUtf8

/-- Repeats a step `count` times; `read` holds the results so far, last first. -/
def repeatStep {α : Type} (step : Bytes → Except Error (α × Bytes)) :
    (count : Nat) → (read : List α) → Bytes → Except Error (List α × Bytes)
  | 0, read, bs => .ok (read.reverse, bs)
  | count + 1, read, bs => do
    let (a, rest) ← step bs
    repeatStep step count (a :: read) rest

/-- A key and its value. -/
def entryStep (value : Bytes → Except Error (Value × Bytes)) (bs : Bytes) :
    Except Error ((String × Value) × Bytes) := do
  let (key, rest) ← value bs
  match key with
  | .str key => do
    let (v, rest) ← value rest
    .ok ((key, v), rest)
  | _ => .error .nonTextKey

/-! ## Values -/

/-- The steps for what stands inside a container, or none where no container may stand. -/
abbrev Inner := Option (Bytes → Except Error (Value × Bytes))

/-- A list of `length` items. Each takes a byte at least, so a length beyond the rest is refused
before any item is read. -/
def takeArray (inner : Inner) (length : Nat) (bs : Bytes) : Except Error (Value × Bytes) :=
  match inner with
  | none => .error (.nestingTooDeep Limits.nesting)
  | some value =>
    if bs.hasAtLeast length then do
      let (items, rest) ← repeatStep value length [] bs
      .ok (.array items, rest)
    else .error .unexpectedEnd

/-- A map of `length` entries. Each takes two bytes at least. -/
def takeMap (inner : Inner) (length : Nat) (bs : Bytes) : Except Error (Value × Bytes) :=
  match inner with
  | none => .error (.nestingTooDeep Limits.nesting)
  | some value =>
    if bs.hasAtLeast (2 * length) then do
      let (entries, rest) ← repeatStep (entryStep value) length [] bs
      .ok (.map entries, rest)
    else .error .unexpectedEnd

/-- A value, given the step for what stands inside it. -/
def valueStep (inner : Inner) : Bytes → Except Error (Value × Bytes)
  | [] => .error .unexpectedEnd
  | marker :: bs =>
    match Head.ofByte marker with
    | .nil => .ok (.nil, bs)
    | .bool b => .ok (.bool b, bs)
    | .smallUint n => .ok (.uint (UInt64.ofNat n.toNat), bs)
    | .smallInt n => .ok (signed 1 n.toNat, bs)
    | .uint width => do
      let (n, rest) ← takeNat width bs
      .ok (.uint (UInt64.ofNat n), rest)
    | .int width => do
      let (n, rest) ← takeNat width bs
      .ok (signed width n, rest)
    | .smallStr length => takeStr length bs
    | .str width => do
      let (length, rest) ← takeNat width bs
      takeStr length rest
    | .bin width => do
      let (length, rest) ← takeNat width bs
      let (raw, rest) ← take length rest
      .ok (.bin raw, rest)
    | .smallArray length => takeArray inner length bs
    | .array width => do
      let (length, rest) ← takeNat width bs
      takeArray inner length rest
    | .smallMap length => takeMap inner length bs
    | .map width => do
      let (length, rest) ← takeNat width bs
      takeMap inner length rest
    | .unsupported => .error (.unsupportedMarker marker)

/-- A value in which containers nest at most `levels` deep. -/
def nestedValue : (levels : Nat) → Bytes → Except Error (Value × Bytes)
  | 0 => valueStep none
  | levels + 1 => valueStep (some (nestedValue levels))

/-- The one value that the bytes hold. -/
def parse (bs : Bytes) : Except Error Value := do
  let (v, rest) ← nestedValue Limits.nesting bs
  if rest.isEmpty then .ok v else .error (.trailingBytes rest.length)

end LedgerCodec.Wire
