import LedgerCodec.Hash.Domain
/-!
# Hashing a message piece by piece

A hasher mixes in whole blocks as they come and keeps the rest. What it holds
depends on the bytes fed to it alone, not on where they were cut (`Fed`), so it
ends with the hash of all pieces in one string: `Hasher.finish_feeds`.
-/

namespace LedgerCodec

namespace Sha512

/-! ## Runs of blocks -/

theorem blocks_add (m n : Nat) (bs : Bytes) :
    blocks (m + n) bs = blocks m bs ++ blocks n (bs.drop (m * 128)) := by
  induction m generalizing bs with
  | zero => simp [blocks]
  | succ m ih =>
    have skipped : 128 + m * 128 = (m + 1) * 128 := by omega
    rw [Nat.succ_add, blocks, blocks, ih, List.drop_drop, skipped, List.cons_append]

/-- What comes after whole blocks is not looked at. -/
theorem blocks_append {count : Nat} {bs : Bytes} (whole : count * 128 ≤ bs.length)
    (after : Bytes) : blocks count (bs ++ after) = blocks count bs := by
  induction count generalizing bs with
  | zero => rfl
  | succ count ih =>
    have first : 128 ≤ bs.length := by omega
    have rest : count * 128 ≤ (bs.drop 128).length := by
      rw [List.length_drop]
      omega
    rw [blocks, blocks, List.take_append_of_le_length first, List.drop_append_of_le_length first,
      ih rest]

theorem absorb_add (m n : Nat) (bs : Bytes) (r : Registers) :
    absorb (m + n) bs r = absorb n (bs.drop (m * 128)) (absorb m bs r) := by
  rw [absorb, blocks_add, List.foldl_append]
  rfl

theorem absorb_append {count : Nat} {bs : Bytes} (whole : count * 128 ≤ bs.length)
    (after : Bytes) (r : Registers) : absorb count (bs ++ after) r = absorb count bs r := by
  rw [absorb, blocks_append whole, ← absorb]

/-! ## What a hasher holds -/

namespace Hasher

variable {h : Hasher} {message : Bytes}

/-- The hasher has taken the bytes of `message`: some whole blocks are mixed in, and the rest
waits. -/
structure Fed (h : Hasher) (message : Bytes) : Prop where
  length : h.length = message.length
  /-- Each is either mixed in or waits. -/
  mixed : ∃ count, count * 128 ≤ message.length ∧ h.registers = absorb count message initial ∧
    h.waiting = message.drop (count * 128)

theorem fed_start : start.Fed [] where
  length := rfl
  mixed := ⟨0, Nat.le_refl 0, rfl, rfl⟩

theorem Fed.feed (fed : h.Fed message) (piece : Bytes) : (h.feed piece).Fed (message ++ piece) where
  length := by
    rw [List.length_append, ← fed.length]
    rfl
  mixed := by
    obtain ⟨count, whole, registers, waiting⟩ := fed.mixed
    have longer : count * 128 ≤ (message ++ piece).length := by
      rw [List.length_append]
      omega
    have left : h.waiting ++ piece = (message ++ piece).drop (count * 128) := by
      rw [waiting, List.drop_append_of_le_length whole]
    -- The blocks that become whole now come after those that are mixed in already.
    let more := (h.waiting ++ piece).length / 128
    refine ⟨count + more, ?_, ?_, ?_⟩
    · have bound : more * 128 ≤ (h.waiting ++ piece).length := Nat.div_mul_le_self _ _
      rw [left, List.length_drop] at bound
      omega
    · rw [absorb_add, absorb_append whole, ← registers, ← left]
      rfl
    · rw [Nat.add_mul, ← List.drop_drop, ← left]
      rfl

/-- Whatever has been taken, what comes of it is the hash of the message. -/
theorem Fed.finish_eq (fed : h.Fed message) : h.finish = Sha512.hash message := by
  obtain ⟨count, whole, registers, waiting⟩ := fed.mixed
  have left : h.waiting ++ padding h.length = (pad message).drop (count * 128) := by
    rw [waiting, fed.length, pad, List.drop_append_of_le_length whole]
  have counted : (pad message).length / 128 =
      count + ((pad message).drop (count * 128)).length / 128 := by
    have longer : count * 128 ≤ (pad message).length := by
      rw [pad, List.length_append]
      omega
    rw [List.length_drop]
    omega
  have mixed : absorb count (pad message) initial = h.registers := by
    rw [pad, absorb_append whole, registers]
  rw [finish, left, Sha512.hash, counted, absorb_add, mixed]

theorem Fed.foldl_feed (fed : h.Fed message) (pieces : List Bytes) :
    (pieces.foldl Hasher.feed h).Fed (message ++ pieces.flatten) := by
  induction pieces generalizing h message with
  | nil => simpa using fed
  | cons piece pieces ih => simpa using ih (fed.feed piece)

/-- Where a message is cut into pieces makes no difference to its hash. -/
theorem finish_feeds (pieces : List Bytes) :
    (pieces.foldl feed start).finish = Sha512.hash pieces.flatten :=
  (fed_start.foldl_feed pieces).finish_eq

/-- The hash of "abc", as it is published. -/
example : (Sha512.hash (utf8 "abc")).bytes =
    [0x53, 0x04, 0x8e, 0x26, 0x81, 0x94, 0x1e, 0xf9, 0x9b, 0x2e, 0x29, 0xb7, 0x6b, 0x4c, 0x7d, 0xab,
     0xe4, 0xc2, 0xd0, 0xc6, 0x34, 0xfc, 0x6d, 0x46, 0xe0, 0xe2, 0xf1, 0x31, 0x07, 0xe7, 0xaf,
     0x23] := by
  decide +kernel

end Hasher

end Sha512

/-- A tag and the bytes after it are hashed as if they were one string. -/
theorem taggedHash_eq (tag : String) (data : Bytes) :
    taggedHash tag data = Sha512.hash (tagged tag data) := by
  have pieces : [utf8 tag, data].flatten = tagged tag data := by simp [tagged]
  rw [← pieces, ← Sha512.Hasher.finish_feeds]
  rfl

end LedgerCodec
