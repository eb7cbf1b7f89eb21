import LedgerCodec.Bytes
/-!
# Byte strings of a fixed length

The length is part of the type, so that a value of `Sized 32` needs no check
after it has been built.
-/

namespace LedgerCodec

/-- A byte string of exactly `n` bytes. -/
structure Sized (n : Nat) where
  bytes : Bytes
  length_bytes : bytes.length = n
deriving DecidableEq

namespace Sized

variable {n : Nat}

def zero (n : Nat) : Sized n :=
  ⟨List.replicate n 0, List.length_replicate⟩

instance : Inhabited (Sized n) := ⟨zero n⟩

/-- The bytes as a string of fixed length, if they have it. -/
def ofBytes? (n : Nat) (bs : Bytes) : Option (Sized n) :=
  if h : bs.length = n then some ⟨bs, h⟩ else none

def isZero (s : Sized n) : Bool :=
  s.bytes.allZero

theorem ext_bytes {s t : Sized n} (h : s.bytes = t.bytes) : s = t := by
  cases s; cases t; simp_all

@[simp]
theorem ofBytes?_bytes (s : Sized n) : ofBytes? n s.bytes = some s := by
  simp [ofBytes?, s.length_bytes]

theorem bytes_of_ofBytes? {bs : Bytes} {s : Sized n} (h : ofBytes? n bs = some s) : s.bytes = bs := by
  unfold ofBytes? at h
  split at h
  · cases h
    rfl
  · cases h

theorem eq_zero_of_isZero {s : Sized n} (h : s.isZero = true) : s = zero n := by
  apply ext_bytes
  simp only [isZero, Bytes.allZero, List.all_eq_true, beq_iff_eq] at h
  exact List.eq_replicate_iff.mpr ⟨s.length_bytes, h⟩

theorem isZero_iff {s : Sized n} : s.isZero = true ↔ s = zero n :=
  ⟨eq_zero_of_isZero, fun h => by subst h; simp [isZero, Bytes.allZero, zero]⟩

end Sized

end LedgerCodec
