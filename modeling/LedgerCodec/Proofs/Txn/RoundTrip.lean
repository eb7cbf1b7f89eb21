import LedgerCodec.Proofs.Txn.Reading
/-!
# Values come back from their canonical bytes

A value whose texts, blobs and lists are shorter than 2^32 is written as a map
that the wire can carry, whatever its type. Together with the laws of its fields
this gives `decode_encode`, for all thirteen types that have canonical bytes.
-/

namespace LedgerCodec

open Wire Kind

variable {levels : Nat}

/-! ## Signed transactions and their parts -/

theorem Cosigner.lawful_fields : (Record.fields (ρ := Cosigner)).Lawful levels where
  distinct := by decide
  short := by decide
  size := by decide
  kinds := ⟨lawful_fixed _ _, lawful_fixed _ _⟩

theorem Cosigner.fits (c : Cosigner) : Fits (levels + 1) (entriesOf c).toValue :=
  Record.fits_toValue lawful_fields (Fields.fits_entries ⟨fits_fixed _, fits_fixed _⟩)

theorem Multisig.lawful_fields : (Record.fields (ρ := Multisig)).Lawful (levels + 2) where
  distinct := by decide
  short := by decide
  size := by decide
  kinds := by
    have cosigner : Canonical.Lawful Cosigner (levels + 1) := Record.lawful Cosigner.lawful_fields
    exact ⟨lawful_narrow _ _, lawful_narrow _ _, lawful_list cosigner.decodeValue_toValue
      cosigner.fits_of_decodeValue⟩

/-- The wire can carry a multisignature. -/
def Multisig.Small (m : Multisig) : Prop :=
  m.cosigners.length < lengthBound

theorem Multisig.Small.fits {m : Multisig} (small : m.Small) :
    Fits (levels + 3) (entriesOf m).toValue :=
  Record.fits_toValue lawful_fields
    (Fields.fits_entries ⟨.uint _, .uint _, fits_list small fun c _ => c.fits⟩)

theorem LogicSig.lawful_fields : (Record.fields (ρ := LogicSig)).Lawful (levels + 3) where
  distinct := by decide
  short := by decide
  size := by decide
  kinds := ⟨lawful_blob _, lawful_fixed _ _, lawful_nested (Record.lawful Multisig.lawful_fields),
    lawful_list (lawful_blob (levels + 2)).read_write (lawful_blob (levels + 2)).fits_of_read⟩

/-- The wire can carry a logic signature. -/
structure LogicSig.Small (l : LogicSig) : Prop where
  logic : l.logic.length < lengthBound
  msig : l.msig.Small
  args : l.args.length < lengthBound
  arg : ∀ bs ∈ l.args, bs.length < lengthBound

theorem LogicSig.Small.fits {l : LogicSig} (small : l.Small) :
    Fits (levels + 4) (entriesOf l).toValue :=
  Record.fits_toValue lawful_fields (Fields.fits_entries ⟨.bin small.logic, fits_fixed _,
    small.msig.fits, fits_list small.args fun bs hbs => .bin (small.arg bs hbs)⟩)

/-- The wire can carry a payload. Only the names of an asset have no bound of their own. -/
def Payload.Small : Payload → Prop
  | assetConfig c => c.params.Small
  | _ => True

theorem Payload.Small.fit {p : Payload} (small : p.Small) :
    (Payload.fieldsOf p.type).Fit (levels + 1) p.row := by
  cases p with
  | payment p => exact p.fit
  | keyRegistration k => exact k.fit
  | assetConfig c => exact AssetConfig.fit small
  | assetTransfer t => exact t.fit
  | assetFreeze f => exact f.fit

/-- The wire can carry a transaction. -/
structure Transaction.Small (t : Transaction) : Prop where
  header : t.header.Small
  payload : t.payload.Small

theorem Transaction.Small.fits {t : Transaction} (small : t.Small) :
    Fits (levels + 2) (entriesOf t).toValue :=
  Transaction.fits_toValue (Fields.fits_entries small.header.fit)
    (Fields.fits_entries small.payload.fit)

theorem Envelope.lawful_fields : (Record.fields (ρ := Envelope)).Lawful (levels + 4) where
  distinct := by decide
  short := by decide
  size := by decide
  kinds := ⟨lawful_fixed _ _, lawful_nested (Record.lawful Multisig.lawful_fields),
    lawful_nested (Record.lawful LogicSig.lawful_fields), lawful_nested Transaction.lawful,
    lawful_fixed _ _⟩

/-- The wire can carry a signed transaction. -/
structure Envelope.Small (e : Envelope) : Prop where
  msig : e.msig.Small
  lsig : e.lsig.Small
  txn : e.txn.Small

theorem Envelope.Small.fits {e : Envelope} (small : e.Small) :
    Fits (levels + 5) (entriesOf e).toValue :=
  Record.fits_toValue lawful_fields (Fields.fits_entries ⟨fits_fixed _, small.msig.fits,
    small.lsig.fits, small.txn.fits, fits_fixed _⟩)

/-! ## All types with canonical bytes -/

/-- The types with canonical bytes. -/
inductive CanonicalType
  | header
  | payment
  | keyRegistration
  | assetParams
  | assetConfig
  | assetTransfer
  | assetFreeze
  | transaction
  | cosigner
  | multisig
  | logicSig
  | envelope
  | group

namespace CanonicalType

/-- The values of a type. -/
def Val : CanonicalType → Type
  | header => Header
  | payment => Payment
  | keyRegistration => KeyRegistration
  | assetParams => AssetParams
  | assetConfig => AssetConfig
  | assetTransfer => AssetTransfer
  | assetFreeze => AssetFreeze
  | transaction => Transaction
  | cosigner => Cosigner
  | multisig => Multisig
  | logicSig => LogicSig
  | envelope => Envelope
  | group => Group

instance : (t : CanonicalType) → Canonical t.Val
  | header => inferInstanceAs (Canonical Header)
  | payment => inferInstanceAs (Canonical Payment)
  | keyRegistration => inferInstanceAs (Canonical KeyRegistration)
  | assetParams => inferInstanceAs (Canonical AssetParams)
  | assetConfig => inferInstanceAs (Canonical AssetConfig)
  | assetTransfer => inferInstanceAs (Canonical AssetTransfer)
  | assetFreeze => inferInstanceAs (Canonical AssetFreeze)
  | transaction => inferInstanceAs (Canonical Transaction)
  | cosigner => inferInstanceAs (Canonical Cosigner)
  | multisig => inferInstanceAs (Canonical Multisig)
  | logicSig => inferInstanceAs (Canonical LogicSig)
  | envelope => inferInstanceAs (Canonical Envelope)
  | group => inferInstanceAs (Canonical Group)

/-- The texts, blobs and lists of a value, and of its parts, are shorter than 2^32. -/
def Small : (t : CanonicalType) → t.Val → Prop
  | header => Header.Small
  | assetParams => AssetParams.Small
  | assetConfig => fun c => c.params.Small
  | transaction => Transaction.Small
  | multisig => Multisig.Small
  | logicSig => LogicSig.Small
  | envelope => Envelope.Small
  | group => fun g => g.hashes.length < lengthBound
  | payment | keyRegistration | assetTransfer | assetFreeze | cosigner => fun _ => True

/-- The wire carries the map of every small value, at any depth that leaves five levels. -/
theorem fits (t : CanonicalType) (x : t.Val) (small : t.Small x) :
    Fits (levels + 5) (entriesOf x).toValue := by
  cases t with
  | header =>
    exact Record.fits_toValue (ρ := Header) Header.lawful_fields
      (Fields.fits_entries (Header.Small.fit small))
  | payment =>
    exact Record.fits_toValue (ρ := Payment) Payment.lawful_fields
      (Fields.fits_entries (Payment.fit x))
  | keyRegistration =>
    exact Record.fits_toValue (ρ := KeyRegistration) KeyRegistration.lawful_fields
      (Fields.fits_entries (KeyRegistration.fit x))
  | assetParams =>
    exact Record.fits_toValue (ρ := AssetParams) AssetParams.lawful_fields
      (Fields.fits_entries (AssetParams.Small.fit small))
  | assetConfig =>
    exact Record.fits_toValue (ρ := AssetConfig) AssetConfig.lawful_fields
      (Fields.fits_entries (AssetConfig.fit small))
  | assetTransfer =>
    exact Record.fits_toValue (ρ := AssetTransfer) AssetTransfer.lawful_fields
      (Fields.fits_entries (AssetTransfer.fit x))
  | assetFreeze =>
    exact Record.fits_toValue (ρ := AssetFreeze) AssetFreeze.lawful_fields
      (Fields.fits_entries (AssetFreeze.fit x))
  | transaction => exact Transaction.Small.fits small
  | cosigner => exact Cosigner.fits x
  | multisig => exact Multisig.Small.fits small
  | logicSig => exact LogicSig.Small.fits small
  | envelope => exact Envelope.Small.fits small
  | group =>
    exact Record.fits_toValue (ρ := Group) Group.lawful_fields
      (Fields.fits_entries (Group.fit small))

end CanonicalType

theorem decode_encode_of_lawful {α : Type} [Canonical α] (lawful : Canonical.Lawful α levels)
    {x : α} (fits : Fits Limits.nesting (entriesOf x).toValue) : decode (encode x) = .ok x := by
  show (parse (entriesOf x).toValue.write >>= decodeValue rootKey) = .ok x
  rw [parse_write fits, bind_ok]
  exact lawful.decodeValue_toValue rootKey x

/-- A transaction comes back from its canonical bytes. -/
theorem Transaction.Small.comes_back {t : Transaction} (small : t.Small) :
    decode (LedgerCodec.encode t) = .ok t :=
  decode_encode_of_lawful (@Transaction.lawful 0) small.fits

/-- So does a signed transaction. -/
theorem Envelope.Small.comes_back {e : Envelope} (small : e.Small) :
    decode (LedgerCodec.encode e) = .ok e :=
  decode_encode_of_lawful (Record.lawful (@Envelope.lawful_fields 0)) small.fits

/-- Every small value comes back from its canonical bytes. -/
theorem decode_encode (t : CanonicalType) (x : t.Val) (small : t.Small x) :
    decode (encode x) = .ok x := by
  cases t with
  | header =>
    exact decode_encode_of_lawful (Record.lawful (@Header.lawful_fields 0))
      (Record.fits_toValue Header.lawful_fields (Fields.fits_entries small.fit))
  | payment =>
    exact decode_encode_of_lawful (Record.lawful (@Payment.lawful_fields 0))
      (Record.fits_toValue Payment.lawful_fields (Fields.fits_entries (Payment.fit x)))
  | keyRegistration =>
    exact decode_encode_of_lawful (Record.lawful (@KeyRegistration.lawful_fields 0))
      (Record.fits_toValue KeyRegistration.lawful_fields
        (Fields.fits_entries (KeyRegistration.fit x)))
  | assetParams =>
    exact decode_encode_of_lawful (Record.lawful (@AssetParams.lawful_fields 0))
      (Record.fits_toValue AssetParams.lawful_fields
        (Fields.fits_entries (AssetParams.Small.fit small)))
  | assetConfig =>
    exact decode_encode_of_lawful (Record.lawful (@AssetConfig.lawful_fields 0))
      (Record.fits_toValue AssetConfig.lawful_fields (Fields.fits_entries (AssetConfig.fit small)))
  | assetTransfer =>
    exact decode_encode_of_lawful (Record.lawful (@AssetTransfer.lawful_fields 0))
      (Record.fits_toValue AssetTransfer.lawful_fields (Fields.fits_entries (AssetTransfer.fit x)))
  | assetFreeze =>
    exact decode_encode_of_lawful (Record.lawful (@AssetFreeze.lawful_fields 0))
      (Record.fits_toValue AssetFreeze.lawful_fields (Fields.fits_entries (AssetFreeze.fit x)))
  | transaction => exact Transaction.Small.comes_back small
  | cosigner =>
    exact decode_encode_of_lawful (Record.lawful (@Cosigner.lawful_fields 0)) (Cosigner.fits x)
  | multisig =>
    exact decode_encode_of_lawful (Record.lawful (@Multisig.lawful_fields 0))
      (Multisig.Small.fits small)
  | logicSig =>
    exact decode_encode_of_lawful (Record.lawful (@LogicSig.lawful_fields 0))
      (LogicSig.Small.fits small)
  | envelope => exact Envelope.Small.comes_back small
  | group =>
    exact decode_encode_of_lawful (Record.lawful (@Group.lawful_fields 0))
      (Record.fits_toValue Group.lawful_fields (Fields.fits_entries (Group.fit small)))

/-- Zeros inside lists come back too: participants without key and signature, an argument without
bytes. -/
theorem decode_encode_zero_items :
    let txn : Transaction := ⟨{ (default : Header) with note := [0, 0], genesisId := "net" },
      .assetConfig ⟨0, { (default : AssetParams) with unitName := "U", decimals := 3 }⟩⟩
    let msig : Multisig := ⟨1, 2, [default, ⟨⟨⟨List.replicate 32 7, by decide⟩⟩, default⟩, default]⟩
    let e : Envelope := ⟨default, msig, ⟨[1, 2], default, msig, [[], [0], []]⟩, txn, default⟩
    CanonicalType.envelope.Small e ∧ decode (encode e) = .ok e := by
  intro txn msig e
  have three : 3 < lengthBound := by decide
  have small : CanonicalType.envelope.Small e :=
    { msig := three
      lsig := ⟨by decide, three, three, by decide⟩
      txn := ⟨⟨by decide, by decide⟩, by decide +kernel, by decide, by decide⟩ }
  exact ⟨small, decode_encode .envelope e small⟩

end LedgerCodec
