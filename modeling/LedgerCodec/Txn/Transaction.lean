import LedgerCodec.Txn.Header
import LedgerCodec.Txn.Payload
import LedgerCodec.Txn.Id
/-!
# Transactions

A transaction is a header and a payload. On the wire and in JSON it is one flat
record of the header's fields, the tag of the type and the payload's fields. A
field of another type may stand in it only if it is zero.

The id of a transaction is the hash of its encoding, tagged as a transaction.
-/

namespace LedgerCodec

open Wire

structure Transaction where
  header : Header
  payload : Payload
deriving DecidableEq

namespace Transaction

/-! ## Parts -/

def type (t : Transaction) : TxnType :=
  t.payload.type

/-- What it carries as a payment; nothing if it is none. -/
def payment (t : Transaction) : Payment :=
  match t.payload with
  | .payment p => p
  | _ => default

/-- What it carries as a key registration; nothing if it is none. -/
def keyRegistration (t : Transaction) : KeyRegistration :=
  match t.payload with
  | .keyRegistration k => k
  | _ => default

/-- What it carries as an asset configuration; nothing if it is none. -/
def assetConfig (t : Transaction) : AssetConfig :=
  match t.payload with
  | .assetConfig c => c
  | _ => default

/-- What it carries as an asset transfer; nothing if it is none. -/
def assetTransfer (t : Transaction) : AssetTransfer :=
  match t.payload with
  | .assetTransfer x => x
  | _ => default

/-- What it carries as an asset freeze; nothing if it is none. -/
def assetFreeze (t : Transaction) : AssetFreeze :=
  match t.payload with
  | .assetFreeze f => f
  | _ => default

/-- Whether it belongs to a group. -/
def isGrouped (t : Transaction) : Bool :=
  !t.header.group.isZero

/-- The transaction as a member of another group. -/
def withGroup (t : Transaction) (group : Digest) : Transaction :=
  { t with header := { t.header with group } }

/-- The transaction outside any group. -/
def withoutGroup (t : Transaction) : Transaction :=
  t.withGroup (.zero .digest)

/-! ## On the wire -/

/-- Refuses entries that belong to no transaction, or that another type than `type` has and that
are not zero. -/
def checkForeign (type : TxnType) : List (String × Value) → Except Error Unit
  | [] => .ok ()
  | (key, v) :: rest =>
    if !Payload.isPayloadKey key then .error (.unknownField key)
    else if !v.isZero then .error (.fieldNotAllowed key type)
    else checkForeign type rest

/-- Reads a transaction and whatever entries of other types stand beside it. -/
def readFields (pending : Pending) : Except Error (Transaction × Pending) := do
  let (header, left) ← Canonical.read pending
  let (tag, left) := left.read Reader.text Payload.typeKey
  let type ← TxnType.parse (← tag)
  let (payload, left) ← Payload.read type left
  let (foreign, left) := left.drain
  checkForeign type foreign
  .ok (⟨header, payload⟩, left)

instance : Canonical Transaction where
  push t es := t.payload.push (Canonical.push t.header es)
  read := readFields

instance : Hashed Transaction where
  tag := Domain.transaction.tag

/-- The bytes that a signer signs and that the id is the hash of. -/
def signable (t : Transaction) : Bytes :=
  Hashed.bytes t

def id (t : Transaction) : TxnId :=
  ⟨Hashed.hash t⟩

/-! ## In JSON -/

/-- The row of all fields that some transaction has. -/
abbrev FlatRow :=
  Option TxnType × Record.Row Header × Record.Row Payment × Record.Row KeyRegistration ×
    Record.Row AssetConfig × Record.Row AssetTransfer × Record.Row AssetFreeze

/-- The flat record: the type, the header, and the fields of every type. -/
def flat : Json.RecordForm FlatRow where
  name := "FlatTransaction"
  strict := true
  members :=
    .both (.field ⟨Payload.typeKey, .optionalType, some none⟩) <|
    .both (Fields.members (Record.fields (ρ := Header))) <|
    .both (Fields.members (Record.fields (ρ := Payment))) <|
    .both (Fields.members (Record.fields (ρ := KeyRegistration))) <|
    .both (Fields.members (Record.fields (ρ := AssetConfig))) <|
    .both (Fields.members (Record.fields (ρ := AssetTransfer))) <|
    Fields.members (Record.fields (ρ := AssetFreeze))

/-- The payload of a type among candidates, all of whose other types must be zero. -/
def choose (type : TxnType) : (chosen : Option Payload) → List Payload → Except Error Payload
  | some p, [] => .ok p
  | none, [] => .error .missingType
  | chosen, p :: rest =>
    if p.type = type then choose type (some p) rest
    else match p.firstSetKey? with
      | some key => .error (.fieldNotAllowed key type)
      | none => choose type chosen rest

/-- The transaction of a flat row. -/
def ofFlat : FlatRow → Except Error Transaction :=
  fun (type, header, payment, keyRegistration, assetConfig, assetTransfer, assetFreeze) =>
    match type with
    | none => .error .missingType
    | some type => do
      let payload ← choose type none
        [.payment (Record.ofRow payment), .keyRegistration (Record.ofRow keyRegistration),
         .assetConfig (Record.ofRow assetConfig), .assetTransfer (Record.ofRow assetTransfer),
         .assetFreeze (Record.ofRow assetFreeze)]
      .ok ⟨Record.ofRow header, payload⟩

/-- How a transaction stands in JSON. -/
def form : Json.Form Transaction where
  write t := .record (Record.membersOf t.header ++ t.payload.members)
  read source d := do
    let row ← flat.read source d
    (ofFlat row).mapError .refused

instance : JsonForm Transaction := ⟨form⟩

/-! ## Building -/

/-- A change of the header of a transaction that is being built. -/
inductive Change
  | sender (x : Address)
  | fee (x : UInt64)
  | firstValid (x : UInt64)
  | lastValid (x : UInt64)
  | validRounds (first last : UInt64)
  | note (x : Bytes)
  | genesisId (x : String)
  | genesisHash (x : Digest)
  | group (x : Digest)
  | lease (x : Lease)
  | rekeyTo (x : Address)
deriving DecidableEq

/-- The transaction after a change. -/
def Change.apply (t : Transaction) : Change → Transaction
  | sender x => { t with header.sender := x }
  | fee x => { t with header.fee := x }
  | firstValid x => { t with header.firstValid := x }
  | lastValid x => { t with header.lastValid := x }
  | validRounds first last => { t with header.firstValid := first, header.lastValid := last }
  | note x => { t with header.note := x }
  | genesisId x => { t with header.genesisId := x }
  | genesisHash x => { t with header.genesisHash := x }
  | group x => { t with header.group := x }
  | lease x => { t with header.lease := x }
  | rekeyTo x => { t with header.rekeyTo := x }

/-- The transaction that a payload and changes, one after the other, build. No field of the header
is set before the first. -/
def build (payload : Payload) (changes : List Change) : Transaction :=
  changes.foldl Change.apply ⟨default, payload⟩

end Transaction

end LedgerCodec
