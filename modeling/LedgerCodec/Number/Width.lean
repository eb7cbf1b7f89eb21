/-!
# Widths of unsigned numbers

The unsigned types in use are parts of the 64-bit numbers: each has those below a
bound. A `Width` says which, and how to go back and forth.
-/

namespace LedgerCodec

/-- An unsigned type of 64 bits at most. -/
structure Width (τ : Type) where
  /-- What a message about a number out of range calls the type. -/
  name : String
  bound : Nat
  ofNat : Nat → τ
  toUInt64 : τ → UInt64
  toNat_lt (x : τ) : (toUInt64 x).toNat < bound
  ofNat_toNat (x : τ) : ofNat (toUInt64 x).toNat = x
  toUInt64_ofNat {n : UInt64} : n.toNat < bound → toUInt64 (ofNat n.toNat) = n

namespace Width

def uint64 : Width UInt64 where
  name := "u64"
  bound := UInt64.size
  ofNat := UInt64.ofNat
  toUInt64 := id
  toNat_lt x := x.toNat_lt_size
  ofNat_toNat _ := UInt64.ofNat_toNat
  toUInt64_ofNat _ := UInt64.ofNat_toNat

def uint32 : Width UInt32 where
  name := "u32"
  bound := UInt32.size
  ofNat := UInt32.ofNat
  toUInt64 := UInt32.toUInt64
  toNat_lt x := by rw [UInt32.toNat_toUInt64]; exact x.toNat_lt_size
  ofNat_toNat x := by rw [UInt32.toNat_toUInt64, UInt32.ofNat_toNat]
  toUInt64_ofNat small := by
    rw [← UInt64.toNat_inj, UInt32.toNat_toUInt64, UInt32.toNat_ofNat_of_lt' small]

def uint8 : Width UInt8 where
  name := "u8"
  bound := UInt8.size
  ofNat := UInt8.ofNat
  toUInt64 := UInt8.toUInt64
  toNat_lt x := by rw [UInt8.toNat_toUInt64]; exact x.toNat_lt_size
  ofNat_toNat x := by rw [UInt8.toNat_toUInt64, UInt8.ofNat_toNat]
  toUInt64_ofNat small := by
    rw [← UInt64.toNat_inj, UInt8.toNat_toUInt64, UInt8.toNat_ofNat_of_lt' small]

variable {τ : Type} (w : Width τ)

theorem bound_pos : 0 < w.bound :=
  Nat.lt_of_le_of_lt (Nat.zero_le _) (w.toNat_lt (w.ofNat 0))

theorem toUInt64_eq_zero {x : τ} : w.toUInt64 x = 0 ↔ x = w.ofNat 0 := by
  constructor
  · intro zero
    rw [← w.ofNat_toNat x, zero]
    rfl
  · rintro rfl
    exact w.toUInt64_ofNat (n := 0) w.bound_pos

end Width

end LedgerCodec
