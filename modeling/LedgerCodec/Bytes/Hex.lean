import LedgerCodec.Text.Utf8
import LedgerCodec.Text.Quoted
/-!
# Hexadecimal text

Bytes are shown as pairs of lowercase hexadecimal digits. Reading takes digits
of either case and says what is wrong with a text that is not made of pairs of
them: an odd number of bytes is reported before any bad digit, and a bad digit
is the first one, counted in bytes.
-/

namespace LedgerCodec.Hex

/-- What keeps a text from being hexadecimal. -/
inductive Error
  | oddLength
  | badDigit (byte : UInt8) (position : Nat)
deriving Repr, DecidableEq

/-- The wording of an error. A byte is shown as the character with its number. -/
def Error.message : Error → String
  | oddLength => "Odd number of digits"
  | badDigit byte position =>
    "Invalid character " ++ Text.quoteChar (Char.ofNat byte.toNat) ++ " at position " ++
      toString position

/-- The digit of a number below 16. -/
def digit (n : UInt8) : Char :=
  if n < 10 then Char.ofNat (48 + n.toNat) else Char.ofNat (87 + n.toNat)

/-- The value of a hexadecimal digit, given as a byte. -/
def digitValue? (b : UInt8) : Option UInt8 :=
  if 48 ≤ b ∧ b ≤ 57 then some (b - 48)
  else if 97 ≤ b ∧ b ≤ 102 then some (b - 87)
  else if 65 ≤ b ∧ b ≤ 70 then some (b - 55)
  else none

def digits (b : UInt8) : List Char :=
  [digit (b / 16), digit (b % 16)]

def chars (bs : Bytes) : List Char :=
  bs.flatMap digits

def encode (bs : Bytes) : String :=
  String.ofList (chars bs)

/-- Reads pairs of digits from `position` on; `read` holds the bytes read so far, last first. -/
def decodePairs : (position : Nat) → (read : Bytes) → Bytes → Except Error Bytes
  | _, read, [] => .ok read.reverse
  | _, _, [_] => .error .oddLength
  | position, read, high :: low :: rest =>
    match digitValue? high, digitValue? low with
    | some h, some l => decodePairs (position + 2) ((h * 16 + l) :: read) rest
    | none, _ => .error (.badDigit high position)
    | some _, none => .error (.badDigit low (position + 1))

def decode (text : String) : Except Error Bytes :=
  let bs := utf8 text
  if bs.length % 2 = 0 then decodePairs 0 [] bs else .error .oddLength

end LedgerCodec.Hex
