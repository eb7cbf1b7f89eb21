import LedgerCodec.Proofs.Txn.IdText
import LedgerCodec.Proofs.Txn.JsonForms
/-!
# Values come back from their JSON texts

Every type that has a form in JSON reads its values back from the two texts that
they are printed as: `JsonType.parse_compact_and_pretty`. Each form writes values
that can be printed and reads their documents back, the forms of parts before
those of the records that hold them.
-/

namespace LedgerCodec

open Json.Form

/-! ## The forms of records -/

theorem Header.lawful_form : (Record.form : Json.Form Header).Lawful :=
  Record.lawful_form (by decide) lawful_forms

theorem Group.lawful_form : (Record.form : Json.Form Group).Lawful :=
  Record.lawful_form (by decide) (lawful_list (lawful_fixed _))

theorem Cosigner.lawful_form : (Record.form : Json.Form Cosigner).Lawful :=
  Record.lawful_form (by decide) ⟨lawful_fixed _, lawful_fixed _⟩

theorem Multisig.lawful_form : (Record.form : Json.Form Multisig).Lawful :=
  Record.lawful_form (by decide)
    ⟨lawful_number _, lawful_number _, lawful_list Cosigner.lawful_form⟩

theorem LogicSig.lawful_form : (Record.form : Json.Form LogicSig).Lawful :=
  Record.lawful_form (by decide)
    ⟨lawful_blob, lawful_fixed _, Multisig.lawful_form, lawful_blobs⟩

theorem Envelope.lawful_form : (Record.form : Json.Form Envelope).Lawful :=
  Record.lawful_form (by decide) ⟨lawful_fixed _, Multisig.lawful_form, LogicSig.lawful_form,
    Transaction.lawful_form, lawful_fixed _⟩

/-! ## Ids -/

theorem TxnId.lawful_form : TxnId.form.Lawful where
  printable id := .text id.text
  read_write source id := by
    simp only [form, Json.doc, readText, bind_ok, ofText_eq_ok.mpr rfl]
    rfl

/-! ## All types with a form in JSON -/

/-- The types with a form in JSON. -/
inductive JsonType
  | fixed (role : Role)
  | id
  | type
  | header
  | payment
  | keyRegistration
  | assetParams
  | assetConfig
  | assetTransfer
  | assetFreeze
  | payload
  | transaction
  | group
  | cosigner
  | multisig
  | logicSig
  | envelope

namespace JsonType

/-- The values of a type. -/
def Val : JsonType → Type
  | fixed role => Fixed role
  | id => TxnId
  | type => TxnType
  | header => Header
  | payment => Payment
  | keyRegistration => KeyRegistration
  | assetParams => AssetParams
  | assetConfig => AssetConfig
  | assetTransfer => AssetTransfer
  | assetFreeze => AssetFreeze
  | payload => Payload
  | transaction => Transaction
  | group => Group
  | cosigner => Cosigner
  | multisig => Multisig
  | logicSig => LogicSig
  | envelope => Envelope

/-- How the values of a type stand in JSON. -/
def form : (t : JsonType) → Json.Form t.Val
  | fixed role => Json.Form.fixed role
  | id => (JsonForm.form : Json.Form TxnId)
  | type => Json.Form.type
  | header => (JsonForm.form : Json.Form Header)
  | payment => (JsonForm.form : Json.Form Payment)
  | keyRegistration => (JsonForm.form : Json.Form KeyRegistration)
  | assetParams => (JsonForm.form : Json.Form AssetParams)
  | assetConfig => (JsonForm.form : Json.Form AssetConfig)
  | assetTransfer => (JsonForm.form : Json.Form AssetTransfer)
  | assetFreeze => (JsonForm.form : Json.Form AssetFreeze)
  | payload => (JsonForm.form : Json.Form Payload)
  | transaction => (JsonForm.form : Json.Form Transaction)
  | group => (JsonForm.form : Json.Form Group)
  | cosigner => (JsonForm.form : Json.Form Cosigner)
  | multisig => (JsonForm.form : Json.Form Multisig)
  | logicSig => (JsonForm.form : Json.Form LogicSig)
  | envelope => (JsonForm.form : Json.Form Envelope)

theorem lawful_form (t : JsonType) : t.form.Lawful := by
  cases t with
  | fixed role => exact lawful_fixed role
  | id => exact TxnId.lawful_form
  | type => exact lawful_type
  | header => exact Header.lawful_form
  | payment => exact Payment.lawful_form
  | keyRegistration => exact KeyRegistration.lawful_form
  | assetParams => exact AssetParams.lawful_form
  | assetConfig => exact AssetConfig.lawful_form
  | assetTransfer => exact AssetTransfer.lawful_form
  | assetFreeze => exact AssetFreeze.lawful_form
  | payload => exact Payload.lawful_form
  | transaction => exact Transaction.lawful_form
  | group => exact Group.lawful_form
  | cosigner => exact Cosigner.lawful_form
  | multisig => exact Multisig.lawful_form
  | logicSig => exact LogicSig.lawful_form
  | envelope => exact Envelope.lawful_form

end JsonType

/-- A lawful form reads a value back from every text that spells what it writes. -/
theorem Json.Form.Lawful.parse_spelled {τ : Type} {f : Json.Form τ} (lawful : f.Lawful) {x : τ}
    {text : String} (spells : Json.Spells (f.write x).tokens text.toList) :
    f.parse text = .ok x := by
  rw [Json.Form.parse, Json.parse_of_spells spells]
  simp only [lawful.read_write, bind_ok, if_true]

/-- Every value comes back from the text without blanks and from the one with a line for each
member. -/
theorem JsonType.parse_compact_and_pretty (t : JsonType) (x : t.Val) :
    t.form.parse (t.form.write x).compact = .ok x ∧
      t.form.parse (t.form.write x).pretty = .ok x := by
  have lawful := t.lawful_form
  have printable := lawful.printable x
  exact ⟨lawful.parse_spelled (Json.spells_compact printable),
    lawful.parse_spelled (Json.spells_pretty printable)⟩

end LedgerCodec
