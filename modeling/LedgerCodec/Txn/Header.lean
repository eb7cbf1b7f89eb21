import LedgerCodec.Record.Canonical
/-!
# Transaction headers

The fields that every transaction has, whatever its type.
-/

namespace LedgerCodec

/-- The fields common to all transactions. -/
structure Header where
  sender : Address
  fee : UInt64
  firstValid : UInt64
  lastValid : UInt64
  note : Bytes
  genesisId : String
  genesisHash : Digest
  group : Digest
  /-- The lease that the sender holds while the transaction is live. -/
  lease : Lease
  /-- The account that signs for the sender from now on. -/
  rekeyTo : Address
deriving DecidableEq, Inhabited

instance : Record Header where
  Row := Address × UInt64 × UInt64 × UInt64 × Bytes × String × Digest × Digest × Lease × Address
  name := "Header"
  strict := false
  fields :=
    .both (.one "sender" "snd" (.fixed _)) <|
    .both (.one "fee" "fee" .uint64) <|
    .both (.one "first_valid" "fv" .uint64) <|
    .both (.one "last_valid" "lv" .uint64) <|
    .both (.one "note" "note" .blob) <|
    .both (.one "genesis_id" "gen" .text) <|
    .both (.one "genesis_hash" "gh" (.fixed _)) <|
    .both (.one "group" "grp" (.fixed _)) <|
    .both (.one "lease" "lx" (.fixed _)) <|
    .one "rekey_to" "rekey" (.fixed _)
  row h := (h.sender, h.fee, h.firstValid, h.lastValid, h.note, h.genesisId, h.genesisHash, h.group,
    h.lease, h.rekeyTo)
  ofRow := fun (sender, fee, firstValid, lastValid, note, genesisId, genesisHash, group, lease,
      rekeyTo) =>
    { sender, fee, firstValid, lastValid, note, genesisId, genesisHash, group, lease, rekeyTo }
  ofRow_row _ := rfl
  row_ofRow _ := rfl

end LedgerCodec
