import LedgerCodec.Bytes.Sized
import LedgerCodec.Limits
/-!
# Values of fixed size

Addresses, digests, leases, keys and signatures are byte strings whose length
follows from what they are for. The string of zero bytes stands for "not set".
-/

namespace LedgerCodec

/-- What a value of fixed size is for. -/
inductive Role
  /-- An account: its raw public key. -/
  | address
  | digest
  | lease
  | voteKey
  | selectionKey
  /-- A key of a participant of a multisignature. -/
  | publicKey
  | signature
deriving DecidableEq, Repr

namespace Role

def all : List Role :=
  [address, digest, lease, voteKey, selectionKey, publicKey, signature]

def size : Role → Nat
  | address => Limits.addressLength
  | digest => Limits.digestLength
  | lease => Limits.leaseLength
  | voteKey => 32
  | selectionKey => 32
  | publicKey => 32
  | signature => Limits.signatureLength

/-- The name of a role's values. -/
def label : Role → String
  | address => "Address"
  | digest => "Digest"
  | lease => "Lease"
  | voteKey => "VotePk"
  | selectionKey => "VrfPk"
  | publicKey => "PublicKey"
  | signature => "Signature"

end Role

/-- A byte string of the size that its role takes. -/
structure Fixed (role : Role) where
  raw : Sized role.size
deriving DecidableEq

abbrev Address := Fixed .address

abbrev Digest := Fixed .digest

abbrev Lease := Fixed .lease

abbrev VoteKey := Fixed .voteKey

abbrev SelectionKey := Fixed .selectionKey

abbrev PublicKey := Fixed .publicKey

abbrev Signature := Fixed .signature

namespace Fixed

variable {role : Role}

/-- The value that stands for "not set". -/
def zero (role : Role) : Fixed role :=
  ⟨.zero role.size⟩

instance : Inhabited (Fixed role) := ⟨zero role⟩

def bytes (x : Fixed role) : Bytes :=
  x.raw.bytes

def isZero (x : Fixed role) : Bool :=
  x.raw.isZero

/-- The bytes as a value of a role, if they are as many as it takes. -/
def ofBytes? (role : Role) (bs : Bytes) : Option (Fixed role) :=
  (Sized.ofBytes? role.size bs).map Fixed.mk

@[simp]
theorem ofBytes?_bytes (x : Fixed role) : ofBytes? role x.bytes = some x := by
  rw [ofBytes?, bytes, Sized.ofBytes?_bytes]
  rfl

theorem bytes_of_ofBytes? {bs : Bytes} {x : Fixed role} (h : ofBytes? role bs = some x) :
    x.bytes = bs := by
  obtain ⟨raw, found, rfl⟩ := Option.map_eq_some_iff.mp h
  exact Sized.bytes_of_ofBytes? found

end Fixed

end LedgerCodec
