import LedgerCodec.Text.Utf8
/-!
# Base-32 text

The alphabet is `A` to `Z` and `2` to `7`, five bits a digit. A byte string is
shown as one number, with zero bits after it until its bits fill whole digits.
Reading takes small letters for capitals, and refuses a text whose digits leave
over as many bits as a digit has, or bits that are not zero.
-/

namespace LedgerCodec.Base32

/-- The digit of a number below 32. -/
def digit (n : Nat) : Char :=
  if n < 26 then Char.ofNat (65 + n) else Char.ofNat (24 + n)

/-- Whether a byte is of the alphabet. -/
def isDigit (b : UInt8) : Bool :=
  (65 ≤ b && b ≤ 90) || (50 ≤ b && b ≤ 55)

/-- The value of a digit of the alphabet, or of a small letter. -/
def digitValue? (b : UInt8) : Option Nat :=
  if 65 ≤ b ∧ b ≤ 90 then some (b.toNat - 65)
  else if 97 ≤ b ∧ b ≤ 122 then some (b.toNat - 97)
  else if 50 ≤ b ∧ b ≤ 55 then some (b.toNat - 24)
  else none

/-- The last `width` base-32 digits of a number, most significant first. -/
def digits : (width : Nat) → Nat → List Char
  | 0, _ => []
  | width + 1, n => digit ((n >>> (5 * width)) % 32) :: digits width n

/-- The number whose base-32 digits are the bytes, if all have a value. -/
def value? (bs : Bytes) : Option Nat :=
  bs.foldl (fun acc b => acc.bind fun n => (digitValue? b).map (n * 32 + ·)) (some 0)

/-- The number of digits that show so many bytes. -/
def width (length : Nat) : Nat :=
  (8 * length + 4) / 5

/-- The number of characters that show 32 bytes. -/
def textLength : Nat := 52

/-- The number of bits that digits have after the last whole byte. -/
def spareBits (width : Nat) : Nat :=
  5 * width % 8

def encode (bs : Bytes) : String :=
  let width := width bs.length
  String.ofList (digits width (Bytes.ofBigEndian bs <<< spareBits width))

/-- A number without its last bits, if these are zero. -/
def dropZeroBits? (count n : Nat) : Option Nat :=
  if n % (1 <<< count) = 0 then some (n >>> count) else none

def decode? (text : String) : Option Bytes := do
  let bs := utf8 text
  let spare := spareBits bs.length
  if spare < 5 then
    let n ← dropZeroBits? spare (← value? bs)
    some (Bytes.toBigEndian (5 * bs.length / 8) n)
  else none

end LedgerCodec.Base32
