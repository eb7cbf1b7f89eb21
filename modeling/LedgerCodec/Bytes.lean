/-!
# Byte strings

Every encoding of this library is a list of bytes. Numbers stand in them as
base-256 digits, most significant first, in a width that the format fixes:
`toBigEndian` writes the last digits of a number and `ofBigEndian` reads them.
Their main statements are `ofBigEndian_toBigEndian` and `toBigEndian_ofBigEndian`:
within the width, the two are inverse to each other.
-/

namespace LedgerCodec

abbrev Bytes := List UInt8

namespace Bytes

/-- Whether every byte is zero. The empty string counts. -/
def allZero (bs : Bytes) : Bool :=
  bs.all (· == 0)

/-- Whether at least `n` bytes are left, looking at no more than `n` of them. -/
def hasAtLeast : Nat → Bytes → Bool
  | 0, _ => true
  | _ + 1, [] => false
  | n + 1, _ :: bs => hasAtLeast n bs

theorem hasAtLeast_iff (n : Nat) (bs : Bytes) : hasAtLeast n bs = true ↔ n ≤ bs.length := by
  induction n generalizing bs with
  | zero => simp [hasAtLeast]
  | succ n ih => cases bs <;> simp [hasAtLeast, ih]

/-! ## Numbers of a fixed width -/

/-- How many byte strings of a width there are. -/
def capacity : (width : Nat) → Nat
  | 0 => 1
  | width + 1 => capacity width * 256

theorem capacity_pos (width : Nat) : 0 < capacity width := by
  induction width with
  | zero => decide
  | succ width ih => exact Nat.mul_pos ih (by decide)

/-- The number whose base-256 digits are the bytes. -/
def ofBigEndian (bs : Bytes) : Nat :=
  bs.foldl (fun n b => n * 256 + b.toNat) 0

/-- The last `width` base-256 digits of a number. -/
def toBigEndian : (width : Nat) → Nat → Bytes
  | 0, _ => []
  | width + 1, n => UInt8.ofNat (n / capacity width) :: toBigEndian width n

@[simp]
theorem length_toBigEndian (width n : Nat) : (toBigEndian width n).length = width := by
  induction width with
  | zero => rfl
  | succ width ih => simp [toBigEndian, ih]

theorem foldl_digits (bs : Bytes) (n : Nat) :
    bs.foldl (fun n b => n * 256 + b.toNat) n = n * capacity bs.length + ofBigEndian bs := by
  induction bs generalizing n with
  | nil => simp [ofBigEndian, capacity]
  | cons b bs ih =>
    simp only [ofBigEndian, List.foldl_cons, List.length_cons, capacity]
    rw [ih, ih (0 * 256 + b.toNat), Nat.add_mul, Nat.mul_assoc, Nat.mul_comm 256]
    simp [Nat.add_assoc]

theorem ofBigEndian_cons (b : UInt8) (bs : Bytes) :
    ofBigEndian (b :: bs) = b.toNat * capacity bs.length + ofBigEndian bs := by
  rw [ofBigEndian, List.foldl_cons, foldl_digits]
  simp

theorem ofBigEndian_lt (bs : Bytes) : ofBigEndian bs < capacity bs.length := by
  induction bs with
  | nil => simp [ofBigEndian, capacity]
  | cons b bs ih =>
    rw [ofBigEndian_cons, List.length_cons, capacity]
    have hb : b.toNat + 1 ≤ 256 := b.toNat_lt
    calc b.toNat * capacity bs.length + ofBigEndian bs
        < b.toNat * capacity bs.length + capacity bs.length := by omega
      _ = (b.toNat + 1) * capacity bs.length := by rw [Nat.add_mul, Nat.one_mul]
      _ ≤ 256 * capacity bs.length := Nat.mul_le_mul_right _ hb
      _ = capacity bs.length * 256 := Nat.mul_comm _ _

/-- Reading back what was written gives the number up to the width. -/
theorem ofBigEndian_toBigEndian (width n : Nat) :
    ofBigEndian (toBigEndian width n) = n % capacity width := by
  induction width with
  | zero => simp [toBigEndian, ofBigEndian, capacity, Nat.mod_one]
  | succ width ih =>
    rw [toBigEndian, ofBigEndian_cons, length_toBigEndian, ih, capacity, Nat.mod_mul]
    simp [Nat.mul_comm, Nat.add_comm]

/-- Writing in its own width what was read gives the bytes again. -/
theorem toBigEndian_ofBigEndian (bs : Bytes) : toBigEndian bs.length (ofBigEndian bs) = bs := by
  have head (b : UInt8) (k : Nat) (rest : Bytes) (h : ofBigEndian rest < capacity k) :
      (b.toNat * capacity k + ofBigEndian rest) / capacity k = b.toNat := by
    rw [Nat.mul_comm, Nat.mul_add_div (capacity_pos k), Nat.div_eq_of_lt h, Nat.add_zero]
  have tail (width n m : Nat) :
      toBigEndian width (m * capacity width + n) = toBigEndian width n := by
    induction width generalizing m with
    | zero => rfl
    | succ width ih =>
      simp only [toBigEndian]
      have split : m * capacity (width + 1) + n = (m * 256) * capacity width + n := by
        rw [capacity, Nat.mul_comm (capacity width), Nat.mul_assoc]
      rw [split, ih (m * 256)]
      congr 1
      rw [Nat.mul_comm, Nat.mul_add_div (capacity_pos width)]
      apply UInt8.toNat_inj.mp
      simp
  induction bs with
  | nil => rfl
  | cons b bs ih =>
    rw [List.length_cons, toBigEndian, ofBigEndian_cons, head b _ bs (ofBigEndian_lt bs), tail, ih]
    simp

end Bytes

end LedgerCodec
