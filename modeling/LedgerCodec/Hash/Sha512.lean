import LedgerCodec.Bytes.Sized
/-!
# SHA-512/256

The hash of every object: SHA-512 with initial registers of its own, cut to its
first 256 bits. The message is padded with a one bit, zeros and its length in
bits to whole blocks of 128 bytes, and each block is mixed into eight 64-bit
registers in eighty rounds.
-/

namespace LedgerCodec.Sha512

structure Registers where
  a : UInt64
  b : UInt64
  c : UInt64
  d : UInt64
  e : UInt64
  f : UInt64
  g : UInt64
  h : UInt64
deriving DecidableEq

def initial : Registers where
  a := 0x22312194fc2bf72c
  b := 0x9f555fa3c84c64c2
  c := 0x2393b86b6f53b151
  d := 0x963877195940eabd
  e := 0x96283ee2a88effe3
  f := 0xbe5e1e2553863992
  g := 0x2b0199fc2c85b8aa
  h := 0x0eb72ddc81c52ca2

def roundConstants : List UInt64 :=
  [0x428a2f98d728ae22, 0x7137449123ef65cd, 0xb5c0fbcfec4d3b2f, 0xe9b5dba58189dbbc,
   0x3956c25bf348b538, 0x59f111f1b605d019, 0x923f82a4af194f9b, 0xab1c5ed5da6d8118,
   0xd807aa98a3030242, 0x12835b0145706fbe, 0x243185be4ee4b28c, 0x550c7dc3d5ffb4e2,
   0x72be5d74f27b896f, 0x80deb1fe3b1696b1, 0x9bdc06a725c71235, 0xc19bf174cf692694,
   0xe49b69c19ef14ad2, 0xefbe4786384f25e3, 0x0fc19dc68b8cd5b5, 0x240ca1cc77ac9c65,
   0x2de92c6f592b0275, 0x4a7484aa6ea6e483, 0x5cb0a9dcbd41fbd4, 0x76f988da831153b5,
   0x983e5152ee66dfab, 0xa831c66d2db43210, 0xb00327c898fb213f, 0xbf597fc7beef0ee4,
   0xc6e00bf33da88fc2, 0xd5a79147930aa725, 0x06ca6351e003826f, 0x142929670a0e6e70,
   0x27b70a8546d22ffc, 0x2e1b21385c26c926, 0x4d2c6dfc5ac42aed, 0x53380d139d95b3df,
   0x650a73548baf63de, 0x766a0abb3c77b2a8, 0x81c2c92e47edaee6, 0x92722c851482353b,
   0xa2bfe8a14cf10364, 0xa81a664bbc423001, 0xc24b8b70d0f89791, 0xc76c51a30654be30,
   0xd192e819d6ef5218, 0xd69906245565a910, 0xf40e35855771202a, 0x106aa07032bbd1b8,
   0x19a4c116b8d2d0c8, 0x1e376c085141ab53, 0x2748774cdf8eeb99, 0x34b0bcb5e19b48a8,
   0x391c0cb3c5c95a63, 0x4ed8aa4ae3418acb, 0x5b9cca4f7763e373, 0x682e6ff3d6b2b8a3,
   0x748f82ee5defb2fc, 0x78a5636f43172f60, 0x84c87814a1f0ab72, 0x8cc702081a6439ec,
   0x90befffa23631e28, 0xa4506cebde82bde9, 0xbef9a3f7b2c67915, 0xc67178f2e372532b,
   0xca273eceea26619c, 0xd186b8c721c0c207, 0xeada7dd6cde0eb1e, 0xf57d4f7fee6ed178,
   0x06f067aa72176fba, 0x0a637dc5a2c898a6, 0x113f9804bef90dae, 0x1b710b35131c471b,
   0x28db77f523047d84, 0x32caab7b40c72493, 0x3c9ebe0a15c9bebc, 0x431d67c49c100d4c,
   0x4cc5d4becb3e42b6, 0x597f299cfc657e2a, 0x5fcb6fab3ad6faec, 0x6c44198c4a475817]

/-! ## One block -/

/-- Turns a word right by `n` bits. -/
def rotate (x : UInt64) (n : UInt64) : UInt64 :=
  (x >>> n) ||| (x <<< (64 - n))

/-- The 64-bit words of a block. -/
def words : (count : Nat) → Bytes → List UInt64
  | 0, _ => []
  | count + 1, block =>
    UInt64.ofNat (Bytes.ofBigEndian (block.take 8)) :: words count (block.drop 8)

/-- Adds `count` words to a schedule whose latest words come first. Each new one mixes the words
2, 7, 15 and 16 places before it. -/
def extend : (count : Nat) → (latest : List UInt64) → List UInt64
  | 0, latest => latest
  | count + 1, latest =>
    let near := latest.getD 1 0
    let far := latest.getD 14 0
    let mixNear := rotate near 19 ^^^ rotate near 61 ^^^ (near >>> 6)
    let mixFar := rotate far 1 ^^^ rotate far 8 ^^^ (far >>> 7)
    extend count ((mixNear + latest.getD 6 0 + mixFar + latest.getD 15 0) :: latest)

/-- The eighty words of a block's schedule. -/
def schedule (block : Bytes) : List UInt64 :=
  (extend 64 (words 16 block).reverse).reverse

/-- One round with its constant and its word of the schedule. -/
def round (r : Registers) (input : UInt64 × UInt64) : Registers :=
  let mixE := rotate r.e 14 ^^^ rotate r.e 18 ^^^ rotate r.e 41
  let choice := (r.e &&& r.f) ^^^ (~~~r.e &&& r.g)
  let t := r.h + mixE + choice + input.1 + input.2
  let mixA := rotate r.a 28 ^^^ rotate r.a 34 ^^^ rotate r.a 39
  let majority := (r.a &&& r.b) ^^^ (r.a &&& r.c) ^^^ (r.b &&& r.c)
  ⟨t + mixA + majority, r.a, r.b, r.c, r.d + t, r.e, r.f, r.g⟩

/-- Mixes one block into the registers. -/
def compress (r : Registers) (block : Bytes) : Registers :=
  let s := (roundConstants.zip (schedule block)).foldl round r
  ⟨r.a + s.a, r.b + s.b, r.c + s.c, r.d + s.d, r.e + s.e, r.f + s.f, r.g + s.g, r.h + s.h⟩

/-! ## The whole message -/

/-- What follows a message of so many bytes, up to whole blocks: a one bit, zeros and the length in
bits. -/
def padding (length : Nat) : Bytes :=
  0x80 :: List.replicate ((239 - length % 128) % 128) 0 ++ Bytes.toBigEndian 16 (length * 8)

/-- The message followed by its padding, in whole blocks. -/
def pad (message : Bytes) : Bytes :=
  message ++ padding message.length

/-- The first `count` blocks of some bytes. -/
def blocks : (count : Nat) → Bytes → List Bytes
  | 0, _ => []
  | count + 1, bs => bs.take 128 :: blocks count (bs.drop 128)

/-- Mixes `count` blocks into the registers, one after the other. -/
def absorb (count : Nat) (bs : Bytes) (r : Registers) : Registers :=
  (blocks count bs).foldl compress r

/-- The first 256 bits of the registers. -/
def Registers.digest (r : Registers) : Sized 32 where
  bytes := Bytes.toBigEndian 8 r.a.toNat ++ Bytes.toBigEndian 8 r.b.toNat ++
    Bytes.toBigEndian 8 r.c.toNat ++ Bytes.toBigEndian 8 r.d.toNat
  length_bytes := by simp

def hash (message : Bytes) : Sized 32 :=
  let padded := pad message
  (absorb (padded.length / 128) padded initial).digest

/-! ## Piece by piece -/

/-- A hash of which some pieces of the message have been taken. Whole blocks are mixed in at once,
and the rest waits for what comes next. -/
structure Hasher where
  registers : Registers
  /-- The bytes that make no whole block yet. -/
  waiting : Bytes
  length : Nat
deriving DecidableEq

namespace Hasher

def start : Hasher where
  registers := initial
  waiting := []
  length := 0

/-- Takes the next piece of the message. -/
def feed (h : Hasher) (piece : Bytes) : Hasher :=
  let bs := h.waiting ++ piece
  let count := bs.length / 128
  { registers := absorb count bs h.registers
    waiting := bs.drop (count * 128)
    length := h.length + piece.length }

/-- The hash of the pieces taken. -/
def finish (h : Hasher) : Sized 32 :=
  let padded := h.waiting ++ padding h.length
  (absorb (padded.length / 128) padded h.registers).digest

end Hasher

end LedgerCodec.Sha512
