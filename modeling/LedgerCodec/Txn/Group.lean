import LedgerCodec.Txn.Transaction
/-!
# Transaction groups

A group links transactions so that the ledger accepts all or none of them. It is
the list of its members' ids, each taken with the member outside any group, and
its digest is the hash of that list. Assigning the group writes the digest into
every member.
-/

namespace LedgerCodec

/-- The ids of the members, in order. -/
structure Group where
  hashes : List Digest
deriving DecidableEq

instance : Record Group where
  Row := List Digest
  name := "TxGroup"
  strict := false
  fields := .required "tx_group_hashes" "txlist" (.list (.fixed .digest))
  row g := g.hashes
  ofRow hashes := { hashes }
  ofRow_row _ := rfl
  row_ofRow _ := rfl

instance : Hashed Group where
  tag := Domain.group.tag

namespace Group

/-- The bytes that the digest is the hash of. -/
def hashed (g : Group) : Bytes :=
  Hashed.bytes g

def digest (g : Group) : Digest :=
  Hashed.hash g

/-- The group of some transactions, from one to sixteen. -/
def ofTransactions (ts : List Transaction) : Except Error Group :=
  if ts.isEmpty then .error .emptyGroup
  else if Limits.groupSize < ts.length then .error (.groupTooLarge ts.length Limits.groupSize)
  else .ok ⟨ts.map fun t => t.withoutGroup.id.digest⟩

/-- The digest of the group of some transactions. -/
def compute (ts : List Transaction) : Except Error Digest :=
  (ofTransactions ts).map digest

/-- The transactions with the digest of their group in every one. -/
def assign (ts : List Transaction) : Except Error (List Transaction) :=
  (compute ts).map fun d => ts.map fun t => t.withGroup d

end Group

end LedgerCodec
