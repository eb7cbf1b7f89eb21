import LedgerCodec.Json.Form
import LedgerCodec.Proofs.Outcome
import LedgerCodec.Proofs.Json.Printing
/-!
# What is written as JSON is read back

Hexadecimal texts are read back, and so are all numbers, texts and byte strings:
their forms write values that can be printed, and read these values' documents
back (`Form.Lawful`).
-/

namespace LedgerCodec

/-! ## Hexadecimal texts -/

namespace Hex

theorem utf8EncodeChar_digit {n : UInt8} (h : n < 16) :
    ∃ b, String.utf8EncodeChar (digit n) = [b] ∧ digitValue? b = some n := by
  have all : ∀ n < 16, String.utf8EncodeChar (digit (UInt8.ofNat n)) =
      [(String.utf8EncodeChar (digit (UInt8.ofNat n))).headD 0] ∧
      digitValue? ((String.utf8EncodeChar (digit (UInt8.ofNat n))).headD 0) =
        some (UInt8.ofNat n) := by
    decide +kernel
  have := all n.toNat h
  rw [UInt8.ofNat_toNat] at this
  exact ⟨_, this⟩

theorem half_lt (b : UInt8) : b / 16 < 16 := by
  rw [UInt8.lt_iff_toNat_lt, UInt8.toNat_div]
  have := b.toNat_lt
  simp only [UInt8.reduceToNat]
  omega

/-- A byte is shown as two bytes, the digits of its halves. -/
theorem utf8_digits (b : UInt8) :
    ∃ high low, (digits b).flatMap String.utf8EncodeChar = [high, low] ∧
      digitValue? high = some (b / 16) ∧ digitValue? low = some (b % 16) := by
  obtain ⟨high, hhigh, valueHigh⟩ := utf8EncodeChar_digit (half_lt b)
  obtain ⟨low, hlow, valueLow⟩ := utf8EncodeChar_digit (UInt8.mod_lt b (by decide))
  exact ⟨high, low, by simp [digits, hhigh, hlow], valueHigh, valueLow⟩

theorem halves (b : UInt8) : b / 16 * 16 + b % 16 = b := by
  apply UInt8.toNat_inj.mp
  have := b.toNat_lt
  simp only [UInt8.toNat_add, UInt8.toNat_mul, UInt8.toNat_div, UInt8.toNat_mod,
    UInt8.reduceToNat]
  omega

theorem decodePairs_chars (position : Nat) (read bs : Bytes) :
    decodePairs position read ((chars bs).flatMap String.utf8EncodeChar) =
      .ok (read.reverse ++ bs) := by
  induction bs generalizing position read with
  | nil => simp [chars, decodePairs]
  | cons b bs ih =>
    obtain ⟨high, low, shown, valueHigh, valueLow⟩ := utf8_digits b
    have first : (chars (b :: bs)).flatMap String.utf8EncodeChar =
        high :: low :: (chars bs).flatMap String.utf8EncodeChar := by
      rw [chars, List.flatMap_cons, List.flatMap_append, shown]
      rfl
    rw [first, decodePairs, valueHigh, valueLow]
    simp only [halves]
    rw [ih, List.reverse_cons, List.append_assoc]
    rfl

theorem length_utf8_chars (bs : Bytes) :
    ((chars bs).flatMap String.utf8EncodeChar).length = 2 * bs.length := by
  induction bs with
  | nil => rfl
  | cons b bs ih =>
    obtain ⟨high, low, shown, -⟩ := utf8_digits b
    have two : ((digits b).flatMap String.utf8EncodeChar).length = 2 := by rw [shown]; rfl
    rw [chars] at ih ⊢
    rw [List.flatMap_cons, List.flatMap_append, List.length_append, two, ih, List.length_cons]
    omega

theorem reads_encode (bs : Bytes) : decode (encode bs) = .ok bs := by
  have even : (utf8 (encode bs)).length % 2 = 0 := by
    rw [encode, utf8_ofList, length_utf8_chars]
    omega
  rw [decode, if_pos even, encode, utf8_ofList, decodePairs_chars]
  rfl

end Hex

namespace Json

/-! ## Forms -/

/-- A form writes values that can be printed, and reads back what it writes. -/
structure Form.Lawful {τ : Type} (f : Form τ) : Prop where
  printable (x : τ) : (f.write x).Printable
  read_write (source : Source) (x : τ) : f.read source (f.write x).doc = .ok x

namespace Form

theorem readNat_number {bound n : Nat} {expected : String} (h : n < bound) :
    readNat bound expected (.number (.integer n)) = .ok n := by
  have inside : 0 ≤ (n : Int) ∧ (n : Int) < bound := by omega
  rw [readNat, if_pos inside]
  rfl

theorem lawful_number {τ : Type} (w : Width τ) : (number w).Lawful where
  printable n := .number (w.toUInt64 n).toNat_lt_size
  read_write source n := by
    have read : readNat w.bound w.name ((number w).write n).doc = .ok (w.toUInt64 n).toNat :=
      readNat_number (w.toNat_lt n)
    simp only [number] at read ⊢
    rw [read, Except.map, w.ofNat_toNat]

theorem lawful_bool : bool.Lawful where
  printable b := .bool b
  read_write _ _ := rfl

theorem lawful_text : text.Lawful where
  printable s := .text s
  read_write _ _ := rfl

theorem readHex_encode (bs : Bytes) : readHex (Hex.encode bs) = .ok bs := by
  rw [readHex, Hex.reads_encode]
  rfl

theorem lawful_blob : blob.Lawful where
  printable bs := .text (Hex.encode bs)
  read_write _ bs := readHex_encode bs

theorem lawful_fixed (role : Role) : (fixed role).Lawful where
  printable x := .text (Hex.encode x.bytes)
  read_write source x := by
    show (readHex (Hex.encode x.bytes) >>= fun bs => _) = _
    rw [readHex_encode, bind_ok, Fixed.ofBytes?_bytes]

theorem lawful_type : type.Lawful where
  printable t := .text t.tag
  read_write source t := by
    show readTag t.tag = .ok t
    rw [readTag, TxnType.ofTag?_tag]

variable {τ : Type}

theorem printable_list {item : Form τ} (h : item.Lawful) (xs : List τ) :
    ((list item).write xs).Printable := by
  refine .list fun v hv => ?_
  obtain ⟨x, -, rfl⟩ := List.mem_map.mp hv
  exact h.printable x

theorem readList_write {item : Form τ} (h : item.Lawful) (source : Source) (xs : List τ) :
    readList item source ((list item).write xs).doc = .ok xs := by
  have items : (docItems (xs.map item.write)).mapM (item.read source) = .ok xs := by
    rw [docItems_eq, List.map_map]
    exact mapM_map_ok _ _ xs fun x _ => h.read_write source x
  show (docItems (xs.map item.write)).mapM (item.read source) >>= _ = _
  rw [items, bind_ok]
  rfl

theorem lawful_list {item : Form τ} (h : item.Lawful) : (list item).Lawful where
  printable := printable_list h
  read_write := readList_write h

theorem lawful_blobs : blobs.Lawful where
  printable := printable_list lawful_blob
  read_write source xs := by
    have texts : blobs.write xs = (list text).write (xs.map Hex.encode) := by
      simp [blobs, list, text, blob]
    show (readList text source (blobs.write xs).doc >>= fun texts => texts.mapM readHex) = _
    rw [texts, readList_write lawful_text, bind_ok]
    exact mapM_map_ok _ _ xs fun bs _ => readHex_encode bs

end Form

end Json

end LedgerCodec
