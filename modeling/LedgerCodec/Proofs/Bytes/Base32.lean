import LedgerCodec.Bytes.Base32
/-!
# Base-32 texts

The value of the digits that a number is written in is the number, up to the
width (`value?_digits`), and digits of the alphabet are those of their value
(`digits_of_value?`). A byte string with its spare bits fills the width of its text
exactly, so it is read back from its text (`decode?_encode`), and from no other text
in the alphabet (`encode_of_decode?`). Both are digits of one number, in groups of
five bits and of eight: `bits_encode`.
-/

namespace LedgerCodec.Base32

/-! ## Widths -/

/-- How many texts of a width there are. -/
def capacity : (width : Nat) → Nat
  | 0 => 1
  | width + 1 => capacity width * 32

/-- Digits of `k` bits each make as many texts as there are numbers of all their bits. -/
theorem eq_shiftLeft {capacity : Nat → Nat} {k : Nat} (one : capacity 0 = 1)
    (digit : ∀ width, capacity (width + 1) = capacity width * 1 <<< k) (width : Nat) :
    capacity width = 1 <<< (k * width) := by
  induction width with
  | zero => exact one
  | succ width ih =>
    rw [digit, ih, Nat.mul_succ, Nat.shiftLeft_add, Nat.one_shiftLeft k,
      Nat.shiftLeft_eq (1 <<< (k * width))]

theorem capacity_digits (width : Nat) : capacity width = 1 <<< (5 * width) :=
  eq_shiftLeft rfl (fun _ => rfl) width

theorem capacity_bytes (width : Nat) : Bytes.capacity width = 1 <<< (8 * width) :=
  eq_shiftLeft rfl (fun _ => rfl) width

theorem capacity_pos (width : Nat) : 0 < capacity width := by
  induction width with
  | zero => decide
  | succ width ih => exact Nat.mul_pos ih (by decide)

theorem shiftRight_eq_div (n k : Nat) : n >>> k = n / 1 <<< k := by
  rw [Nat.shiftRight_eq_div_pow, Nat.one_shiftLeft]

theorem shiftRight_digits (n width : Nat) : n >>> (5 * width) = n / capacity width := by
  rw [shiftRight_eq_div, capacity_digits]

theorem shiftRight_bytes (n width : Nat) : n >>> (8 * width) = n / Bytes.capacity width := by
  rw [shiftRight_eq_div, capacity_bytes]

theorem five_mul_width (length : Nat) :
    5 * width length = 8 * length + spareBits (width length) := by
  rw [spareBits, width]
  omega

theorem spareBits_width (length : Nat) : spareBits (width length) < 5 := by
  have filled := five_mul_width length
  have least : 5 * width length ≤ 8 * length + 4 := Nat.mul_div_le _ 5
  omega

theorem width_of_spareBits {w : Nat} (few : spareBits w < 5) : width (5 * w / 8) = w := by
  rw [spareBits] at few
  rw [width]
  omega

/-- Bytes and spare bits fill the width of their text. -/
theorem capacity_width (length : Nat) :
    Bytes.capacity length <<< spareBits (width length) = capacity (width length) := by
  rw [capacity_bytes, capacity_digits, five_mul_width, Nat.shiftLeft_add]

theorem shiftLeft_lt_shiftLeft {n m k : Nat} : n <<< k < m <<< k ↔ n < m := by
  rw [Nat.shiftLeft_eq, Nat.shiftLeft_eq]
  exact Nat.mul_lt_mul_right (Nat.two_pow_pos k)

/-! ## Digits -/

theorem utf8EncodeChar_digit : ∀ n < 32,
    String.utf8EncodeChar (digit n) = [(digit n).toUInt8] := by
  decide +kernel

theorem isDigit_digit : ∀ n < 32, isDigit (digit n).toUInt8 = true := by
  decide +kernel

theorem digitValue?_digit : ∀ n < 32, digitValue? (digit n).toUInt8 = some n := by
  decide +kernel

/-- A byte of the alphabet is the digit of its value. -/
theorem digit_of_digitValue? {b : UInt8} {n : Nat} (alphabetic : isDigit b = true)
    (value : digitValue? b = some n) : n < 32 ∧ (digit n).toUInt8 = b := by
  have all : ∀ k < 256, isDigit (UInt8.ofNat k) = true →
      ∀ n ∈ digitValue? (UInt8.ofNat k), n < 32 ∧ (digit n).toUInt8 = UInt8.ofNat k := by
    decide +kernel
  rw [← UInt8.ofNat_toNat (x := b)] at alphabetic value ⊢
  exact all b.toNat b.toNat_lt alphabetic n value

@[simp]
theorem length_digits (width n : Nat) : (digits width n).length = width := by
  induction width with
  | zero => rfl
  | succ width ih => rw [digits, List.length_cons, ih]

/-- The bytes of digits. -/
theorem utf8_digits (width n : Nat) :
    utf8 (String.ofList (digits width n)) = (digits width n).map Char.toUInt8 := by
  rw [utf8_ofList]
  induction width with
  | zero => rfl
  | succ width ih =>
    rw [digits, List.flatMap_cons, utf8EncodeChar_digit _ (Nat.mod_lt _ (by decide)), ih]
    rfl

theorem all_isDigit_digits (width n : Nat) :
    ((digits width n).map Char.toUInt8).all isDigit = true := by
  induction width with
  | zero => rfl
  | succ width ih =>
    rw [digits, List.map_cons, List.all_cons, isDigit_digit _ (Nat.mod_lt _ (by decide)), ih]
    rfl

/-- The digits written after those of `acc` make one number with it. -/
theorem foldl_digits (width n acc : Nat) :
    ((digits width n).map Char.toUInt8).foldl
      (fun acc b => acc.bind fun n => (digitValue? b).map (n * 32 + ·)) (some acc) =
        some (acc * capacity width + n % capacity width) := by
  induction width generalizing acc with
  | zero => simp [digits, capacity, Nat.mod_one]
  | succ width ih =>
    have first := digitValue?_digit (n >>> (5 * width) % 32) (Nat.mod_lt _ (by decide))
    rw [digits, List.map_cons, List.foldl_cons, Option.bind_some, first, Option.map_some, ih,
      shiftRight_digits, capacity, Nat.mod_mul, Nat.add_mul]
    congr 1
    rw [Nat.mul_assoc, Nat.mul_comm 32, Nat.mul_comm (n / _ % 32)]
    omega

theorem value?_digits (width n : Nat) :
    value? ((digits width n).map Char.toUInt8) = some (n % capacity width) := by
  rw [value?, foldl_digits, Nat.zero_mul, Nat.zero_add]

theorem foldl_none (bs : Bytes) :
    bs.foldl (fun acc b => acc.bind fun n => (digitValue? b).map (n * 32 + ·)) none = none := by
  induction bs with
  | nil => rfl
  | cons b bs ih => exact ih

/-- Digits read after `acc` are the last digits of the number that they make with it. -/
theorem digits_of_foldl {bs : Bytes} {acc n : Nat} (alphabetic : bs.all isDigit = true)
    (h : bs.foldl (fun acc b => acc.bind fun n => (digitValue? b).map (n * 32 + ·)) (some acc) =
      some n) : n / capacity bs.length = acc ∧ (digits bs.length n).map Char.toUInt8 = bs := by
  induction bs generalizing acc with
  | nil =>
    cases h
    exact ⟨Nat.div_one _, rfl⟩
  | cons b bs ih =>
    obtain ⟨here, rest⟩ := Bool.and_eq_true_iff.mp alphabetic
    rw [List.foldl_cons, Option.bind_some] at h
    cases first : digitValue? b with
    | none =>
      rw [first, Option.map_none, foldl_none] at h
      cases h
    | some d =>
      rw [first, Option.map_some] at h
      obtain ⟨high, low⟩ := ih rest h
      obtain ⟨small, rfl⟩ := digit_of_digitValue? here first
      rw [List.length_cons, capacity, ← Nat.div_div_eq_div_mul, digits, shiftRight_digits, high,
        List.map_cons, low]
      refine ⟨by omega, ?_⟩
      congr
      omega

theorem digits_of_value? {bs : Bytes} {n : Nat} (alphabetic : bs.all isDigit = true)
    (h : value? bs = some n) :
    n < capacity bs.length ∧ (digits bs.length n).map Char.toUInt8 = bs := by
  obtain ⟨high, low⟩ := digits_of_foldl alphabetic h
  refine ⟨?_, low⟩
  exact (Nat.div_eq_zero_iff.mp high).resolve_left (Nat.ne_of_gt (capacity_pos _))

/-! ## Spare bits -/

theorem dropZeroBits?_eq_some {count n m : Nat} :
    dropZeroBits? count n = some m ↔ n = m <<< count := by
  have parts := Nat.div_add_mod n (1 <<< count)
  unfold dropZeroBits?
  rw [shiftRight_eq_div]
  constructor
  · intro h
    split at h
    · rename_i zeros
      cases h
      rw [zeros, Nat.add_zero, Nat.mul_comm, Nat.one_shiftLeft] at parts
      rw [Nat.shiftLeft_eq, Nat.one_shiftLeft, parts]
    · cases h
  · rintro rfl
    rw [Nat.shiftLeft_eq, Nat.one_shiftLeft, Nat.mul_mod_left, if_pos rfl,
      Nat.mul_div_cancel _ (Nat.two_pow_pos count)]

/-! ## Texts -/

/-- The bytes of a text. -/
theorem utf8_encode (bs : Bytes) :
    utf8 (encode bs) = (digits (width bs.length)
      (Bytes.ofBigEndian bs <<< spareBits (width bs.length))).map Char.toUInt8 :=
  utf8_digits _ _

@[simp]
theorem length_encode (bs : Bytes) : (encode bs).length = width bs.length := by
  rw [← String.length_toList, encode, String.toList_ofList, length_digits]

@[simp]
theorem length_utf8_encode (bs : Bytes) : (utf8 (encode bs)).length = width bs.length := by
  rw [utf8_encode, List.length_map, length_digits]

theorem all_isDigit_encode (bs : Bytes) : (utf8 (encode bs)).all isDigit = true := by
  rw [utf8_encode]
  exact all_isDigit_digits _ _

/-- Bytes are read back from their text. -/
theorem decode?_encode (bs : Bytes) : decode? (encode bs) = some bs := by
  have whole : 5 * width bs.length / 8 = bs.length := by
    have filled := five_mul_width bs.length
    rw [spareBits] at filled
    omega
  have small :
      Bytes.ofBigEndian bs <<< spareBits (width bs.length) < capacity (width bs.length) := by
    rw [← capacity_width]
    exact shiftLeft_lt_shiftLeft.mpr (Bytes.ofBigEndian_lt bs)
  have value : value? (utf8 (encode bs)) =
      some (Bytes.ofBigEndian bs <<< spareBits (width bs.length)) := by
    rw [utf8_encode, value?_digits, Nat.mod_eq_of_lt small]
  simp only [decode?, length_utf8_encode, if_pos (spareBits_width _), value, Option.bind_eq_bind,
    Option.bind_some, dropZeroBits?_eq_some.mpr rfl, whole, Bytes.toBigEndian_ofBigEndian]

/-- Of the texts in the alphabet, no other is read as the same bytes. -/
theorem encode_of_decode? {text : String} {bs : Bytes}
    (alphabetic : (utf8 text).all isDigit = true) (h : decode? text = some bs) :
    encode bs = text := by
  unfold decode? at h
  dsimp only at h
  split at h
  · rename_i few
    obtain ⟨n, value, h⟩ := Option.bind_eq_some_iff.mp h
    obtain ⟨m, dropped, h⟩ := Option.bind_eq_some_iff.mp h
    cases h
    obtain rfl := dropZeroBits?_eq_some.mp dropped
    obtain ⟨small, same⟩ := digits_of_value? alphabetic value
    have wide := width_of_spareBits few
    have fits : m < Bytes.capacity (5 * (utf8 text).length / 8) := by
      have filled := capacity_width (5 * (utf8 text).length / 8)
      rw [wide] at filled
      rw [← filled] at small
      exact shiftLeft_lt_shiftLeft.mp small
    apply utf8_injective
    rw [utf8_encode, Bytes.length_toBigEndian, wide, Bytes.ofBigEndian_toBigEndian,
      Nat.mod_eq_of_lt fits, same]
  · cases h

/-! ## The bits of a text -/

/-- The thirty-two digits. -/
def alphabet : List Char :=
  "ABCDEFGHIJKLMNOPQRSTUVWXYZ234567".toList

/-- The last `width` binary digits of a number, most significant first. -/
def bits : (width : Nat) → Nat → List Bool
  | 0, _ => []
  | width + 1, n => n.testBit width :: bits width n

theorem idxOf_digit : ∀ n < 32, digit n ∈ alphabet ∧ alphabet.idxOf (digit n) = n := by
  decide

theorem digits_subset (width n : Nat) : digits width n ⊆ alphabet := by
  induction width with
  | zero => exact List.nil_subset _
  | succ width ih =>
    exact List.cons_subset.mpr ⟨(idxOf_digit _ (Nat.mod_lt _ (by decide))).1, ih⟩

theorem encode_subset (bs : Bytes) : (encode bs).toList ⊆ alphabet := by
  rw [encode, String.toList_ofList]
  exact digits_subset _ _

theorem bits_congr {width n m : Nat} (h : ∀ i < width, n.testBit i = m.testBit i) :
    bits width n = bits width m := by
  induction width with
  | zero => rfl
  | succ width ih => rw [bits, bits, h width (by omega), ih fun i hi => h i (by omega)]

theorem bits_zero (width : Nat) : bits width 0 = List.replicate width false := by
  induction width with
  | zero => rfl
  | succ width ih => rw [bits, Nat.zero_testBit, ih, List.replicate_succ]

theorem bits_add (width low n : Nat) :
    bits (width + low) n = bits width (n >>> low) ++ bits low n := by
  induction width with
  | zero => rw [Nat.zero_add, bits, List.nil_append]
  | succ width ih =>
    rw [Nat.add_right_comm, bits, ih, bits, Nat.testBit_shiftRight, Nat.add_comm low]
    rfl

/-- A number and zero bits after it. -/
theorem bits_shiftLeft (width low n : Nat) :
    bits (width + low) (n <<< low) = bits width n ++ List.replicate low false := by
  have zeros : bits low (n <<< low) = bits low 0 := bits_congr fun i hi => by
    rw [Nat.testBit_shiftLeft, Nat.zero_testBit, decide_eq_false (by omega), Bool.false_and]
  rw [bits_add, Nat.shiftLeft_shiftRight, zeros, bits_zero]

/-- The bits of digits, five each, are those of the number. -/
theorem flatMap_digits (width n : Nat) :
    ((digits width n).flatMap fun c => bits 5 (alphabet.idxOf c)) = bits (5 * width) n := by
  induction width with
  | zero => rfl
  | succ width ih =>
    have first := (idxOf_digit (n >>> (5 * width) % 32) (Nat.mod_lt _ (by decide))).2
    have five (m : Nat) : bits 5 (m % 32) = bits 5 m :=
      bits_congr fun i hi => (Nat.testBit_mod_two_pow m 5 i).trans (by simp [hi])
    rw [digits, List.flatMap_cons, first, five, ih, Nat.mul_succ, Nat.add_comm, bits_add]

/-- So are the bits of bytes, eight each. -/
theorem flatMap_toBigEndian (width n : Nat) :
    ((Bytes.toBigEndian width n).flatMap fun b => bits 8 b.toNat) = bits (8 * width) n := by
  induction width with
  | zero => rfl
  | succ width ih =>
    have eight (m : Nat) : bits 8 (UInt8.ofNat m).toNat = bits 8 m := by
      refine bits_congr fun i hi => ?_
      rw [UInt8.toNat_ofNat']
      exact (Nat.testBit_mod_two_pow m 8 i).trans (by simp [hi])
    rw [Bytes.toBigEndian, List.flatMap_cons, eight, ih, Nat.mul_succ, Nat.add_comm, bits_add,
      shiftRight_bytes]

/-- The bits of a text are those of its bytes and zeros. -/
theorem bits_encode (bs : Bytes) :
    ((encode bs).toList.flatMap fun c => bits 5 (alphabet.idxOf c)) =
      (bs.flatMap fun b => bits 8 b.toNat) ++
        List.replicate (spareBits (width bs.length)) false := by
  rw [encode, String.toList_ofList, flatMap_digits, five_mul_width, bits_shiftLeft,
    ← flatMap_toBigEndian, Bytes.toBigEndian_ofBigEndian]

end LedgerCodec.Base32
