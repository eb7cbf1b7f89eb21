import LedgerCodec.Txn.Transaction
/-!
# Signed transactions

An envelope is a transaction with what authorizes it: a signature, a
multisignature or a logic signature, and the account that signed if it is not
the sender. Making and checking signatures is not the business of this library.
-/

namespace LedgerCodec

/-! ## Multisignatures -/

/-- The place of one participant of a multisignature. -/
structure Cosigner where
  key : PublicKey
  sig : Signature
deriving DecidableEq, Inhabited

instance : Record Cosigner where
  Row := PublicKey × Signature
  name := "MultisigSubsig"
  strict := true
  fields :=
    .both (.one "key" "pk" (.fixed _)) <|
    .one "sig" "s" (.fixed _)
  row c := (c.key, c.sig)
  ofRow := fun (key, sig) => { key, sig }
  ofRow_row _ := rfl
  row_ofRow _ := rfl

/-- A signature by some of several participants. -/
structure Multisig where
  version : UInt8
  /-- How many participants must sign. -/
  threshold : UInt8
  /-- The participants, in the order that makes the address. -/
  cosigners : List Cosigner
deriving DecidableEq, Inhabited

instance : Record Multisig where
  Row := UInt8 × UInt8 × List Cosigner
  name := "MultisigSig"
  strict := true
  fields :=
    .both (.one "version" "v" (.narrow .uint8)) <|
    .both (.one "threshold" "thr" (.narrow .uint8)) <|
    .one "subsigs" "subsig" (.list .nested)
  row m := (m.version, m.threshold, m.cosigners)
  ofRow := fun (version, threshold, cosigners) => { version, threshold, cosigners }
  ofRow_row _ := rfl
  row_ofRow _ := rfl

/-- Whether no multisignature is there. -/
def Multisig.isBlank (m : Multisig) : Bool :=
  m.version == 0 && m.threshold == 0 && m.cosigners.isEmpty

/-! ## Logic signatures -/

/-- A program that approves a transaction, with what delegates to it. -/
structure LogicSig where
  logic : Bytes
  sig : Signature
  msig : Multisig
  args : List Bytes
deriving DecidableEq, Inhabited

instance : Record LogicSig where
  Row := Bytes × Signature × Multisig × List Bytes
  name := "LogicSig"
  strict := true
  fields :=
    .both (.one "logic" "l" .blob) <|
    .both (.one "sig" "sig" (.fixed _)) <|
    .both (.one "msig" "msig" .nested) <|
    .one "args" "arg" .blobs
  row l := (l.logic, l.sig, l.msig, l.args)
  ofRow := fun (logic, sig, msig, args) => { logic, sig, msig, args }
  ofRow_row _ := rfl
  row_ofRow _ := rfl

/-- Whether no logic signature is there. -/
def LogicSig.isBlank (l : LogicSig) : Bool :=
  l.logic.isEmpty && l.sig.isZero && l.msig.isBlank && l.args.isEmpty

/-! ## Envelopes -/

/-- A transaction with what authorizes it. -/
structure Envelope where
  sig : Signature
  msig : Multisig
  lsig : LogicSig
  txn : Transaction
  /-- The account that signed, if it is not the sender. -/
  authAddr : Address
deriving DecidableEq

instance : Record Envelope where
  Row := Signature × Multisig × LogicSig × Transaction × Address
  name := "SignedTxn"
  strict := true
  fields :=
    .both (.one "sig" "sig" (.fixed _)) <|
    .both (.one "msig" "msig" .nested) <|
    .both (.one "lsig" "lsig" .nested) <|
    .both (.required "txn" "txn" .nested) <|
    .one "auth_addr" "sgnr" (.fixed _)
  row e := (e.sig, e.msig, e.lsig, e.txn, e.authAddr)
  ofRow := fun (sig, msig, lsig, txn, authAddr) => { sig, msig, lsig, txn, authAddr }
  ofRow_row _ := rfl
  row_ofRow _ := rfl

namespace Envelope

/-- A transaction that nothing authorizes yet. -/
def unsigned (txn : Transaction) : Envelope where
  sig := default
  msig := default
  lsig := default
  txn
  authAddr := default

/-- Whether anything authorizes the transaction. -/
def isSigned (e : Envelope) : Bool :=
  !e.sig.isZero || !e.msig.isBlank || !e.lsig.isBlank

/-- The id of the transaction; what authorizes it does not count. -/
def id (e : Envelope) : TxnId :=
  e.txn.id

end Envelope

end LedgerCodec
