import Mathlib.Tactic.SplitIfs
import LedgerCodec.Proofs.Wire.Grammar
/-!
# What is written is shortest

The writer puts every number and every length into the first of its forms that
has room for it, and the forms stand in the order of their widths. So no form is
shorter, and by induction over the grammar no bytes that are read as a value are
shorter than those written for it: `length_write_le`. Integers compete in signed
forms too, which have no more room than the unsigned ones of the same width.
-/

namespace LedgerCodec.Wire

/-! ## The least form of a number -/

namespace Forms

/-- A number in the first of the forms that have room for it. -/
def write (f : Forms) (n : Nat) : Bytes :=
  if n < f.small then [f.base + UInt8.ofNat n]
  else match f.wide.find? fun m => n < Bytes.capacity m.2 with
    | some m => m.1 :: Bytes.toBigEndian m.2 n
    | none => []

/-- The forms stand in the order of their widths. -/
def Widening (f : Forms) : Prop :=
  f.wide.Pairwise fun m m' => m.2 ≤ m'.2

theorem widening : uint.Widening ∧ str.Widening ∧ bin.Widening ∧ array.Widening ∧ map.Widening := by
  simp [Widening, uint, str, bin, array, map]

/-- The first form that has room is the one of least width. -/
theorem width_le_of_find? {wide : List (UInt8 × Nat)}
    (widening : wide.Pairwise fun m m' => m.2 ≤ m'.2)
    {p : UInt8 × Nat → Bool} {m first : UInt8 × Nat} (found : wide.find? p = some first)
    (known : m ∈ wide) (room : p m = true) : first.2 ≤ m.2 := by
  induction wide with
  | nil => cases known
  | cons m' wide ih =>
    rw [List.pairwise_cons] at widening
    rw [List.find?_cons] at found
    split at found
    · cases found
      rcases List.mem_cons.mp known with rfl | known
      · exact Nat.le_refl _
      · exact widening.1 m known
    · rename_i full
      rcases List.mem_cons.mp known with rfl | known
      · rw [room] at full
        cases full
      · exact ih widening.2 found known

/-- No form of a number is shorter than the first that has room for it. -/
theorem length_write_le {f : Forms} (widening : f.Widening) {n : Nat} {bs : Bytes}
    (form : f.Spells n bs) : (f.write n).length ≤ bs.length := by
  have pos := length_pos_of_spells form
  unfold write
  split
  · exact pos
  · rename_i large
    rcases form with ⟨small, -⟩ | ⟨m, known, room, rfl⟩
    · exact absurd small large
    · split
      · rename_i first found
        have := width_le_of_find? widening found known (by simpa using room)
        simpa using this
      · exact Nat.zero_le _

end Forms

/-! ## Headers and integers -/

section Headers

open Forms

theorem writeUint_eq (n : UInt64) : writeUint n = uint.write n.toNat := by
  have bound := n.toNat_lt
  unfold writeUint write uint
  dsimp only
  split_ifs <;> simp [Bytes.capacity, *]

variable {n : Nat} (short : n < lengthBound)
include short

theorem strHeader_eq : strHeader n = str.write n := by
  have bound : n < 4294967296 := short
  unfold strHeader write str
  dsimp only
  split_ifs <;> simp [Bytes.capacity, *]

theorem binHeader_eq : binHeader n = bin.write n := by
  have bound : n < 4294967296 := short
  unfold binHeader write bin
  dsimp only
  rw [if_neg (Nat.not_lt_zero n)]
  split_ifs <;> simp [Bytes.capacity, *]

theorem arrayHeader_eq : arrayHeader n = array.write n := by
  have bound : n < 4294967296 := short
  unfold arrayHeader write array
  dsimp only
  split_ifs <;> simp [Bytes.capacity, *]

theorem mapHeader_eq : mapHeader n = map.write n := by
  have bound : n < 4294967296 := short
  unfold mapHeader write map
  dsimp only
  split_ifs <;> simp [Bytes.capacity, *]

end Headers

/-- Lengths are bounded by the widest of their forms. -/
theorem Forms.lt_of_spells {f : Forms} {n : Nat} {bs : Bytes}
    (narrow : f.small ≤ lengthBound ∧ ∀ m ∈ f.wide, m.2 ≤ 4) (form : f.Spells n bs) :
    n < lengthBound := by
  rcases form with ⟨small, -⟩ | ⟨m, known, room, -⟩
  · exact Nat.lt_of_lt_of_le small narrow.1
  · exact Nat.lt_of_lt_of_le room (capacity_mono (narrow.2 m known))

theorem length_writeUint_le {n : UInt64} {bs : Bytes} (form : Forms.uint.Spells n.toNat bs) :
    (writeUint n).length ≤ bs.length := by
  rw [writeUint_eq]
  exact Forms.length_write_le Forms.widening.1 form

/-- A negative integer is written with no more bytes than a marker and a number that has room for
it. -/
theorem length_writeNegative_le {n : Int64} {marker : UInt8} {width : Nat}
    (known : (marker, width) ∈ intMarkers) (low : -(Bytes.capacity width / 2 : Nat) ≤ n.toInt) :
    (writeNegative n).length ≤ width + 1 := by
  simp only [intMarkers, List.mem_cons, Prod.mk.injEq, List.not_mem_nil, or_false] at known
  unfold writeNegative
  dsimp only
  rcases known with ⟨-, rfl⟩ | ⟨-, rfl⟩ | ⟨-, rfl⟩ | ⟨-, rfl⟩ <;>
    simp only [Bytes.capacity] at low <;> split_ifs <;> simp <;> omega

theorem write_ofInt_of_neg {n : Int} (low : -0x8000000000000000 ≤ n) (negative : n < 0) :
    ∃ m : Int64, m.toInt = n ∧ (Value.ofInt n).write = writeNegative m := by
  have value : (Int64.ofInt n).toInt = n := Int64.toInt_ofInt_of_le low (by omega)
  have below : Int64.ofInt n < 0 := by
    rw [Int64.lt_iff_toInt_lt, value]
    exact negative
  refine ⟨Int64.ofInt n, value, ?_⟩
  rw [Value.ofInt, if_neg (by omega), Value.write_int below]

/-- An integer is written with no more bytes than a marker and two's complement of a width that has
room for it. -/
theorem length_write_ofInt_le {n : Int} {marker : UInt8} {width : Nat}
    (known : (marker, width) ∈ intMarkers) (low : -(Bytes.capacity width / 2 : Nat) ≤ n)
    (high : n < (Bytes.capacity width / 2 : Nat)) : (Value.ofInt n).write.length ≤ width + 1 := by
  have widths : ∀ m ∈ intMarkers, Bytes.capacity m.2 / 2 ≤ 0x8000000000000000 ∧
      ∃ m' ∈ Forms.uint.wide, m'.2 = m.2 := by decide
  obtain ⟨wide, ⟨marker', width'⟩, known', same⟩ := widths _ known
  dsimp only at wide same
  subst same
  by_cases negative : n < 0
  · obtain ⟨m, rfl, written⟩ := write_ofInt_of_neg (by omega) negative
    rw [written]
    exact length_writeNegative_le known low
  · -- From zero on, an unsigned form of the same width has room for it.
    have form : Forms.uint.Spells n.toNat (marker' :: Bytes.toBigEndian width' n.toNat) :=
      .inr ⟨_, known', by dsimp only; omega, rfl⟩
    have short := length_writeUint_le (n := UInt64.ofNat n.toNat) (by rwa [toNat_of_spells form])
    rw [Value.ofInt, if_pos (by omega), Value.write_uint]
    simpa using short

/-! ## Whole values -/

theorem length_flatMap_le {α : Type} {f g : α → Bytes} {xs : List α}
    (h : ∀ x ∈ xs, (f x).length ≤ (g x).length) :
    (xs.flatMap f).length ≤ (xs.flatMap g).length := by
  induction xs with
  | nil => simp
  | cons x xs ih =>
    rw [List.forall_mem_cons] at h
    have rest := ih h.2
    simp only [List.flatMap_cons, List.length_append]
    omega

/-- No bytes that spell a value are shorter than those written for it. -/
theorem length_write_le {levels : Nat} {v : Value} {bs : Bytes} (h : Encodes levels v bs) :
    v.write.length ≤ bs.length := by
  induction h with
  | nil => exact Nat.le_refl _
  | bool b => simp [Value.write_bool, writeBool]
  | uint form => exact Value.write_uint _ ▸ length_writeUint_le form
  | smallInt low negative =>
    obtain ⟨m, rfl, written⟩ := write_ofInt_of_neg (by omega) negative
    rw [written]
    simp [writeNegative, low]
  | int known low high => simpa using length_write_ofInt_le known low high
  | str form =>
    have short := Forms.lt_of_spells (by decide) form
    have least := Forms.length_write_le Forms.widening.2.1 form
    rw [Value.write_str, writeStr, strHeader_eq short]
    simpa using least
  | bin form =>
    have short := Forms.lt_of_spells (by decide) form
    have least := Forms.length_write_le Forms.widening.2.2.1 form
    rw [Value.write_bin, writeBin, binHeader_eq short]
    simpa using least
  | @array _ items _ form _ ih =>
    have short := Forms.lt_of_spells (by decide) form
    have least := Forms.length_write_le Forms.widening.2.2.2.1 form
    have inside := length_flatMap_le ih
    rw [Value.write_array, List.length_map, arrayHeader_eq short, List.flatMap_map]
    simp only [List.length_append]
    omega
  | @map _ entries _ form _ _ keys values =>
    have short := Forms.lt_of_spells (by decide) form
    have least := Forms.length_write_le Forms.widening.2.2.2.2 form
    have inside : (entries.flatMap fun e => Value.writeEntry e.entry).length ≤
        (entries.flatMap SpelledEntry.bytes).length := by
      refine length_flatMap_le fun e he => ?_
      have key := keys e he
      have value := values e he
      rw [Value.write_str] at key
      simp only [Value.writeEntry, SpelledEntry.bytes, SpelledEntry.entry, List.length_append]
      omega
    rw [Value.write_map, List.length_map, mapHeader_eq short, List.flatMap_map]
    simp only [List.length_append]
    omega

/-- A value that fits is the one value that its bytes hold, and no shorter bytes hold it. -/
theorem parse_write_and_shortest {v : Value} (h : Fits Limits.nesting v) :
    parse v.write = .ok v ∧ ∀ bs, parse bs = .ok v → v.write.length ≤ bs.length := by
  refine ⟨parse_write h, fun bs parsed => ?_⟩
  exact length_write_le ((parse_eq_ok_iff bs v).mp parsed)

/-- A map with a list in it, and longer bytes that hold it: wide headers for all lengths, and for
one of the integers a signed form. -/
theorem parse_write_and_shortest_map :
    let v : Value := .map [("k", .array [.uint 128, .uint 5, .bool true])]
    let bs : Bytes := [0xde, 0x00, 0x01, 0xd9, 0x01, 0x6b, 0xdc, 0x00, 0x03,
      0xcd, 0x00, 0x80, 0xd0, 0x05, 0xc3]
    Fits Limits.nesting v ∧ v.write = [0x81, 0xa1, 0x6b, 0x93, 0xcc, 0x80, 0x05, 0xc3] ∧
      parse v.write = .ok v ∧ parse bs = .ok v ∧ v.write.length ≤ bs.length := by
  intro v bs
  have items : ∀ i ∈ [Value.uint 128, .uint 5, .bool true], Fits 30 i := by
    simp only [List.forall_mem_cons]
    exact ⟨.uint _, .uint _, .bool _, nofun⟩
  have fits : Fits Limits.nesting v := by
    refine .map (by decide) (by decide) ?_
    simp only [List.forall_mem_cons]
    exact ⟨.array (by decide) items, nofun⟩
  have parsed : parse bs = .ok v := by rfl
  obtain ⟨read, shortest⟩ := parse_write_and_shortest fits
  exact ⟨fits, by decide, read, parsed, shortest bs parsed⟩

end LedgerCodec.Wire
