import LedgerCodec.Hash.Sha512
import LedgerCodec.Record.Canonical
/-!
# Domain separation

An object is hashed with a short tag of its kind in front, so that a transaction
and a vote with the same encoding have different hashes. No tag begins with
another tag.
-/

namespace LedgerCodec

/-- The kinds of object that are hashed. -/
inductive Domain
  | blockHeader
  | balanceRecord
  | credential
  | genesis
  | message
  | paysetFlat
  | program
  | signedInBlock
  | group
  | treeLeaf
  | transaction
  | vote
deriving DecidableEq

namespace Domain

/-- The tag in front of an object of each kind. -/
def tag : Domain → String
  | blockHeader => "BH"
  | balanceRecord => "BR"
  | credential => "CR"
  | genesis => "GE"
  | message => "MX"
  | paysetFlat => "PF"
  | program => "Program"
  | signedInBlock => "STIB"
  | group => "TG"
  | treeLeaf => "TL"
  | transaction => "TX"
  | vote => "VO"

/-- All kinds, in the order of their tags. -/
def all : List Domain :=
  [blockHeader, balanceRecord, credential, genesis, message, paysetFlat, program, signedInBlock,
   group, treeLeaf, transaction, vote]

end Domain

/-- A tag and the bytes after it: what is hashed, and what a signer signs. -/
def tagged (tag : String) (data : Bytes) : Bytes :=
  utf8 tag ++ data

/-- The hash of a tag and the bytes after it, without putting them in one string first. -/
def taggedHash (tag : String) (data : Bytes) : Sized 32 :=
  ((Sha512.Hasher.start.feed (utf8 tag)).feed data).finish

/-- The kinds of object that are hashed. A kind chooses its tag and nothing else. -/
class Hashed (α : Type) [Canonical α] where
  /-- The tag in front of the canonical bytes. -/
  tag : String

namespace Hashed

variable {α : Type} [Canonical α] [Hashed α]

/-- The bytes that are hashed, and for a transaction signed. -/
def bytes (x : α) : Bytes :=
  tagged (tag α) (encode x)

def hash (x : α) : Digest :=
  ⟨taggedHash (tag α) (encode x)⟩

end Hashed

end LedgerCodec
