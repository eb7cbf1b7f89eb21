import LedgerCodec.Record.Canonical
/-!
# Payloads

What a transaction of each type carries beside the header. A payload is one of
five records, and which one it is decides the type. On the wire its fields stand
beside those of the header, together with the tag of the type.
-/

namespace LedgerCodec

/-! ## The five records -/

structure Payment where
  receiver : Address
  amount : UInt64
  /-- The account that gets what is left, if the sender's account is closed. -/
  closeRemainderTo : Address
deriving DecidableEq, Inhabited

instance : Record Payment where
  Row := Address × UInt64 × Address
  name := "PaymentFields"
  strict := false
  fields :=
    .both (.one "receiver" "rcv" (.fixed _)) <|
    .both (.one "amount" "amt" .uint64) <|
    .one "close_remainder_to" "close" (.fixed _)
  row p := (p.receiver, p.amount, p.closeRemainderTo)
  ofRow := fun (receiver, amount, closeRemainderTo) => { receiver, amount, closeRemainderTo }
  ofRow_row _ := rfl
  row_ofRow _ := rfl

/-- What a key registration carries. Nothing set means going offline. -/
structure KeyRegistration where
  voteKey : VoteKey
  selectionKey : SelectionKey
  voteFirst : UInt64
  voteLast : UInt64
  /-- How many rounds one key of the tree serves. -/
  voteKeyDilution : UInt64
deriving DecidableEq, Inhabited

instance : Record KeyRegistration where
  Row := VoteKey × SelectionKey × UInt64 × UInt64 × UInt64
  name := "KeyRegFields"
  strict := false
  fields :=
    .both (.one "vote_pk" "votekey" (.fixed _)) <|
    .both (.one "selection_pk" "selkey" (.fixed _)) <|
    .both (.one "vote_first" "votefst" .uint64) <|
    .both (.one "vote_last" "votelst" .uint64) <|
    .one "vote_key_dilution" "votekd" .uint64
  row k := (k.voteKey, k.selectionKey, k.voteFirst, k.voteLast, k.voteKeyDilution)
  ofRow := fun (voteKey, selectionKey, voteFirst, voteLast, voteKeyDilution) =>
    { voteKey, selectionKey, voteFirst, voteLast, voteKeyDilution }
  ofRow_row _ := rfl
  row_ofRow _ := rfl

structure AssetParams where
  total : UInt64
  decimals : UInt32
  defaultFrozen : Bool
  unitName : String
  assetName : String
  url : String
  /-- A commitment to data kept elsewhere. -/
  metadataHash : Digest
  manager : Address
  /-- The account that holds units not yet issued. -/
  reserve : Address
  freeze : Address
  /-- The account that may take units back. -/
  clawback : Address
deriving DecidableEq, Inhabited

instance : Record AssetParams where
  Row := UInt64 × UInt32 × Bool × String × String × String × Digest × Address × Address × Address ×
    Address
  name := "AssetParams"
  strict := true
  fields :=
    .both (.one "total" "t" .uint64) <|
    .both (.one "decimals" "dc" (.narrow .uint32)) <|
    .both (.one "default_frozen" "df" .bool) <|
    .both (.one "unit_name" "un" .text) <|
    .both (.one "asset_name" "an" .text) <|
    .both (.one "url" "au" .text) <|
    .both (.one "metadata_hash" "am" (.fixed _)) <|
    .both (.one "manager" "m" (.fixed _)) <|
    .both (.one "reserve" "r" (.fixed _)) <|
    .both (.one "freeze" "f" (.fixed _)) <|
    .one "clawback" "c" (.fixed _)
  row a := (a.total, a.decimals, a.defaultFrozen, a.unitName, a.assetName, a.url, a.metadataHash,
    a.manager, a.reserve, a.freeze, a.clawback)
  ofRow := fun (total, decimals, defaultFrozen, unitName, assetName, url, metadataHash, manager,
      reserve, freeze, clawback) =>
    { total, decimals, defaultFrozen, unitName, assetName, url, metadataHash, manager, reserve,
      freeze, clawback }
  ofRow_row _ := rfl
  row_ofRow _ := rfl

structure AssetConfig where
  /-- The asset; zero stands for a new one. -/
  configAsset : UInt64
  params : AssetParams
deriving DecidableEq, Inhabited

instance : Record AssetConfig where
  Row := UInt64 × AssetParams
  name := "AssetConfigFields"
  strict := false
  fields :=
    .both (.one "config_asset" "caid" .uint64) <|
    .one "params" "apar" .nested
  row c := (c.configAsset, c.params)
  ofRow := fun (configAsset, params) => { configAsset, params }
  ofRow_row _ := rfl
  row_ofRow _ := rfl

namespace AssetConfig

/-- Whether a new asset is created. -/
def isCreation (c : AssetConfig) : Bool :=
  c.configAsset == 0

/-- Whether an asset is destroyed: one that exists gets no parameters. -/
def isDestruction (c : AssetConfig) : Bool :=
  c.configAsset != 0 && c.params == default

end AssetConfig

structure AssetTransfer where
  asset : UInt64
  amount : UInt64
  /-- The account from which units are taken back, if they are. -/
  sender : Address
  receiver : Address
  /-- The account that gets what is left, if the holding is closed. -/
  closeTo : Address
deriving DecidableEq, Inhabited

instance : Record AssetTransfer where
  Row := UInt64 × UInt64 × Address × Address × Address
  name := "AssetTransferFields"
  strict := false
  fields :=
    .both (.one "xfer_asset" "xaid" .uint64) <|
    .both (.one "asset_amount" "aamt" .uint64) <|
    .both (.one "asset_sender" "asnd" (.fixed _)) <|
    .both (.one "asset_receiver" "arcv" (.fixed _)) <|
    .one "asset_close_to" "aclose" (.fixed _)
  row t := (t.asset, t.amount, t.sender, t.receiver, t.closeTo)
  ofRow := fun (asset, amount, sender, receiver, closeTo) =>
    { asset, amount, sender, receiver, closeTo }
  ofRow_row _ := rfl
  row_ofRow _ := rfl

structure AssetFreeze where
  account : Address
  asset : UInt64
  frozen : Bool
deriving DecidableEq, Inhabited

instance : Record AssetFreeze where
  Row := Address × UInt64 × Bool
  name := "AssetFreezeFields"
  strict := false
  fields :=
    .both (.one "freeze_account" "fadd" (.fixed _)) <|
    .both (.one "freeze_asset" "faid" .uint64) <|
    .one "asset_frozen" "afrz" .bool
  row f := (f.account, f.asset, f.frozen)
  ofRow := fun (account, asset, frozen) => { account, asset, frozen }
  ofRow_row _ := rfl
  row_ofRow _ := rfl

/-! ## One of the five -/

/-- What a transaction carries beside its header. -/
inductive Payload
  | payment (p : Payment)
  | keyRegistration (k : KeyRegistration)
  | assetConfig (c : AssetConfig)
  | assetTransfer (t : AssetTransfer)
  | assetFreeze (f : AssetFreeze)
deriving DecidableEq

namespace Payload

/-- The type that a payload makes. -/
def type : Payload → TxnType
  | payment _ => .payment
  | keyRegistration _ => .keyRegistration
  | assetConfig _ => .assetConfig
  | assetTransfer _ => .assetTransfer
  | assetFreeze _ => .assetFreeze

/-- The keys of each type on the wire. The table stands on its own, beside the layouts. -/
def keysOf : TxnType → List String
  | .payment => ["rcv", "amt", "close"]
  | .keyRegistration => ["votekey", "selkey", "votefst", "votelst", "votekd"]
  | .assetConfig => ["caid", "apar"]
  | .assetTransfer => ["xaid", "aamt", "asnd", "arcv", "aclose"]
  | .assetFreeze => ["fadd", "faid", "afrz"]

/-- Whether a key belongs to one of the types. -/
def isPayloadKey (key : String) : Bool :=
  TxnType.declared.any fun t => (keysOf t).contains key

/-- Pushes the fields of the record, without the tag. -/
def pushRecord : Payload → Entries → Entries
  | payment p => Canonical.push p
  | keyRegistration k => Canonical.push k
  | assetConfig c => Canonical.push c
  | assetTransfer t => Canonical.push t
  | assetFreeze f => Canonical.push f

/-- The key of the first field that is not zero. -/
def firstSetKey? (p : Payload) : Option String :=
  (p.pushRecord Entries.empty).keys.head?

def typeKey : String := "type"

/-- Pushes the tag and the fields of the record. -/
def push (p : Payload) (es : Entries) : Entries :=
  p.pushRecord (es.push Writer.text typeKey p.type.tag)

/-- Reads the record of a type. -/
def read : TxnType → Pending → Except Error (Payload × Pending)
  | .payment, p => (Canonical.read p).map fun (x, left) => (payment x, left)
  | .keyRegistration, p => (Canonical.read p).map fun (x, left) => (keyRegistration x, left)
  | .assetConfig, p => (Canonical.read p).map fun (x, left) => (assetConfig x, left)
  | .assetTransfer, p => (Canonical.read p).map fun (x, left) => (assetTransfer x, left)
  | .assetFreeze, p => (Canonical.read p).map fun (x, left) => (assetFreeze x, left)

/-- The canonical bytes of the tag and the record. -/
def encode (p : Payload) : Bytes :=
  (p.push Entries.empty).toBytes

/-! ## JSON -/

/-- The members of the tag and the record. -/
def members (p : Payload) : List (String × Json) :=
  (typeKey, .text p.type.tag) :: match p with
    | payment p => Record.membersOf p
    | keyRegistration k => Record.membersOf k
    | assetConfig c => Record.membersOf c
    | assetTransfer t => Record.membersOf t
    | assetFreeze f => Record.membersOf f

/-- Reads the record of a type from values put aside. -/
def readRecord (d : Json.Doc) : TxnType → Except Json.Problem Payload
  | .payment => (Record.form.read .buffer d).map payment
  | .keyRegistration => (Record.form.read .buffer d).map keyRegistration
  | .assetConfig => (Record.form.read .buffer d).map assetConfig
  | .assetTransfer => (Record.form.read .buffer d).map assetTransfer
  | .assetFreeze => (Record.form.read .buffer d).map assetFreeze

/-- Reads a tag. -/
def readTag (d : Json.Doc) : Except Json.Problem TxnType := do
  Json.Form.readTag (← Json.Form.readText "variant identifier" d)

/-- How many lists and records may nest inside a value that is put aside. -/
def heldLevels : Nat := 126

/-- Puts a value aside, if it can be held. -/
def hold (d : Json.Doc) : Except Json.Problem Json.Doc :=
  if d.isHeld heldLevels then .ok d else .error .malformed

/-- A tag, if it has been met, and the members put aside, last first. -/
structure Held where
  type : Option TxnType
  members : List (Option String × Json.Doc)

/-- Takes a member: reads the tag or puts the value aside. -/
def holdMember (held : Held) : Option String × Json.Doc → Except Json.Problem Held
  | (none, _) => .error .malformed
  | (some key, d) =>
    if key = typeKey then
      match held.type with
      | some _ => .error (.duplicateField key)
      | none => do
        let t ← readTag d
        .ok { held with type := some t }
    else do
      let d ← hold d
      .ok { held with members := (some key, d) :: held.members }

/-- How a payload stands in JSON. The tag may be any member of a record, or is the first item of a
list; the other values are read once it is known. -/
def form : Json.Form Payload where
  write p := .record p.members
  read _
    | .record members ending => do
      let held ← members.foldlM holdMember ⟨none, []⟩
      if ending.isClosed then
        match held.type with
        | some t => readRecord (.record held.members.reverse .closed) t
        | none => .error (.missingField typeKey)
      else .error .malformed
    | .list items ending =>
      match items with
      | tag :: items => do
        let t ← readTag tag
        let items ← items.mapM hold
        if ending.isClosed then readRecord (.list items .closed) t else .error .malformed
      | [] => .error (if ending.isClosed then .missingField typeKey else .malformed)
    | d => .error (d.misfit "internally tagged enum TxFields")

instance : JsonForm Payload := ⟨form⟩

end Payload

end LedgerCodec
