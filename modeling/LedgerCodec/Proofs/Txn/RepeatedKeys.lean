import LedgerCodec.Proofs.Record.Unrepeated
import LedgerCodec.Proofs.Txn.RoundTrip
/-!
# Where keys may repeat

Every record is read from a value in which no key repeats, at any depth, with one
exception: a zero that stands in a transaction under the key of another type is
not read at all, and a map of zeros may repeat its keys. `keysOnce_of_decode`
says so for every type with canonical bytes.
-/

namespace LedgerCodec

open Wire Reader

/-! ## The fields of every record -/

theorem Header.takes_fields :
    (Record.fields (ρ := Header)).All fun f => f.kind.reader.TakesUnrepeated :=
  ⟨takesUnrepeated_fixed, takesUnrepeated_uint, takesUnrepeated_uint, takesUnrepeated_uint,
    takesUnrepeated_blob, takesUnrepeated_text, takesUnrepeated_fixed, takesUnrepeated_fixed,
    takesUnrepeated_fixed, takesUnrepeated_fixed⟩

theorem AssetParams.takes_fields :
    (Record.fields (ρ := AssetParams)).All fun f => f.kind.reader.TakesUnrepeated :=
  ⟨takesUnrepeated_uint, takesUnrepeated_narrow, takesUnrepeated_bool, takesUnrepeated_text,
    takesUnrepeated_text, takesUnrepeated_text, takesUnrepeated_fixed, takesUnrepeated_fixed,
    takesUnrepeated_fixed, takesUnrepeated_fixed, takesUnrepeated_fixed⟩

theorem Payload.takes_fieldsOf (t : TxnType) :
    (Payload.fieldsOf t).All fun f => f.kind.reader.TakesUnrepeated := by
  cases t with
  | payment => exact ⟨takesUnrepeated_fixed, takesUnrepeated_uint, takesUnrepeated_fixed⟩
  | keyRegistration =>
    exact ⟨takesUnrepeated_fixed, takesUnrepeated_fixed, takesUnrepeated_uint,
      takesUnrepeated_uint, takesUnrepeated_uint⟩
  | assetConfig =>
    exact ⟨takesUnrepeated_uint,
      Record.unrepeated_of_decodeValue (@AssetParams.lawful_fields 0) AssetParams.takes_fields⟩
  | assetTransfer =>
    exact ⟨takesUnrepeated_uint, takesUnrepeated_uint, takesUnrepeated_fixed,
      takesUnrepeated_fixed, takesUnrepeated_fixed⟩
  | assetFreeze => exact ⟨takesUnrepeated_fixed, takesUnrepeated_uint, takesUnrepeated_bool⟩

theorem Cosigner.takes_fields :
    (Record.fields (ρ := Cosigner)).All fun f => f.kind.reader.TakesUnrepeated :=
  ⟨takesUnrepeated_fixed, takesUnrepeated_fixed⟩

theorem Multisig.takes_fields :
    (Record.fields (ρ := Multisig)).All fun f => f.kind.reader.TakesUnrepeated :=
  ⟨takesUnrepeated_narrow, takesUnrepeated_narrow, takesUnrepeated_list
    (Record.unrepeated_of_decodeValue (@Cosigner.lawful_fields 0) Cosigner.takes_fields)⟩

theorem LogicSig.takes_fields :
    (Record.fields (ρ := LogicSig)).All fun f => f.kind.reader.TakesUnrepeated :=
  ⟨takesUnrepeated_blob, takesUnrepeated_fixed,
    Record.unrepeated_of_decodeValue (@Multisig.lawful_fields 0) Multisig.takes_fields,
    takesUnrepeated_list takesUnrepeated_blob⟩

theorem Group.takes_fields :
    (Record.fields (ρ := Group)).All fun f => f.kind.reader.TakesUnrepeated :=
  takesUnrepeated_list takesUnrepeated_fixed

/-! ## Transactions -/

/-- In the value of a transaction no key repeats, unless inside a zero under the key of another
type. -/
def Transaction.KeysOnce (v : Value) : Prop :=
  ∃ (t : TxnType) (es : List (String × Value)), v = .map es ∧ (es.map Prod.fst).Nodup ∧
    (Payload.typeKey, .str t.tag) ∈ es ∧
      ∀ e ∈ es, e.2.Unrepeated ∨ e.1 ∉ keysFor t ∧ e.2.isZero = true

theorem Transaction.keysOnce_of_decodeValue {key : String} {v : Value} {t : Transaction}
    (h : decodeValue key v = .ok t) : KeysOnce v := by
  obtain ⟨es, rfl, distinct, read, foreign⟩ := of_decodeValue h
  obtain ⟨header, tag, payload⟩ := readBy_eq_ok.mp read
  have tagged : (Payload.typeKey, .str t.type.tag) ∈ es :=
    mem_of_lookup (Pending.find?_eq_some.mp tag).1
  refine ⟨t.type, es, rfl, distinct, tagged, fun e he => ?_⟩
  have taken {σ : Type} {l : Fields σ} {x : σ}
      (takes : l.All fun f => f.kind.reader.TakesUnrepeated)
      (read : (l.readBy fun k => (⟨es⟩ : Pending).find? k) = .ok x) (hk : e.1 ∈ l.keys) :
      e.2.Unrepeated := Fields.unrepeated_of_readBy distinct read takes e he hk
  by_cases own : e.1 ∈ keysFor t.type
  · refine .inl ?_
    rcases mem_keysFor.mp own with hk | hk | hk
    · exact taken Header.takes_fields header hk
    · have value : e.2 = .str t.type.tag := by
        have here := (lookup_eq_some distinct).mpr he
        rw [hk, (lookup_eq_some distinct).mpr tagged] at here
        exact (Option.some.inj here).symm
      rw [value]
      exact .str _
    · rw [Payload.keysOf_eq] at hk
      exact taken (Payload.takes_fieldsOf _) payload hk
  · exact .inr ⟨own, (foreign e he own).2⟩

/-! ## Envelopes -/

/-- The key under which an envelope holds its transaction. -/
def txnKey : String := "txn"

/-- In the value of an envelope no key repeats, but for what its transaction may hold. -/
def Envelope.KeysOnce (v : Value) : Prop :=
  ∃ es, v = .map es ∧ (es.map Prod.fst).Nodup ∧
    ∀ e ∈ es, e.2.Unrepeated ∨ e.1 = txnKey ∧ Transaction.KeysOnce e.2

theorem Envelope.keysOnce_of_decodeValue {key : String} {v : Value} {e : Envelope}
    (h : decodeValue key v = .ok e) : KeysOnce v := by
  obtain ⟨es, hv, distinct, keys, read⟩ :=
    Record.of_decodeValue (@Envelope.lawful_fields 0).distinct h
  rcases hv with rfl | ⟨-, rfl⟩
  · refine ⟨es, rfl, distinct, fun e he => ?_⟩
    refine Fields.entries_of_readBy
      (P := fun key v => v.Unrepeated ∨ key = txnKey ∧ Transaction.KeysOnce v) distinct read
      (fun _ => .inl .nil) ?_ e he (keys e he)
    exact ⟨fun read => .inl (takesUnrepeated_fixed read),
      fun read => .inl (Record.unrepeated_of_decodeValue (@Multisig.lawful_fields 0)
        Multisig.takes_fields read),
      fun read => .inl (Record.unrepeated_of_decodeValue (@LogicSig.lawful_fields 0)
        LogicSig.takes_fields read),
      fun read => .inr ⟨rfl, Transaction.keysOnce_of_decodeValue read⟩,
      fun read => .inl (takesUnrepeated_fixed read)⟩
  · -- Nothing holds no transaction, and an envelope has one.
    have none : (decodeValue txnKey (.map []) : Except Error Transaction) = .ok e.txn :=
      (Fields.readBy_eq_ok.mp read).2.2.2.1
    obtain ⟨t, es, hes, -, tagged, -⟩ := Transaction.keysOnce_of_decodeValue none
    cases hes
    cases tagged

/-! ## All types with canonical bytes -/

/-- In the value that a type is read from no key repeats, but for zeros of other types. -/
def CanonicalType.KeysOnce : CanonicalType → Value → Prop
  | transaction => Transaction.KeysOnce
  | envelope => Envelope.KeysOnce
  | _ => Value.Unrepeated

theorem CanonicalType.keysOnce_of_decodeValue {t : CanonicalType} {key : String} {v : Value}
    {x : t.Val} (h : decodeValue key v = .ok x) : t.KeysOnce v := by
  cases t with
  | header => exact Record.unrepeated_of_decodeValue (@Header.lawful_fields 0) Header.takes_fields h
  | payment =>
    exact Record.unrepeated_of_decodeValue (@Payment.lawful_fields 0)
      (Payload.takes_fieldsOf .payment) h
  | keyRegistration =>
    exact Record.unrepeated_of_decodeValue (@KeyRegistration.lawful_fields 0)
      (Payload.takes_fieldsOf .keyRegistration) h
  | assetParams =>
    exact Record.unrepeated_of_decodeValue (@AssetParams.lawful_fields 0) AssetParams.takes_fields h
  | assetConfig =>
    exact Record.unrepeated_of_decodeValue (@AssetConfig.lawful_fields 0)
      (Payload.takes_fieldsOf .assetConfig) h
  | assetTransfer =>
    exact Record.unrepeated_of_decodeValue (@AssetTransfer.lawful_fields 0)
      (Payload.takes_fieldsOf .assetTransfer) h
  | assetFreeze =>
    exact Record.unrepeated_of_decodeValue (@AssetFreeze.lawful_fields 0)
      (Payload.takes_fieldsOf .assetFreeze) h
  | transaction => exact Transaction.keysOnce_of_decodeValue h
  | cosigner =>
    exact Record.unrepeated_of_decodeValue (@Cosigner.lawful_fields 0) Cosigner.takes_fields h
  | multisig =>
    exact Record.unrepeated_of_decodeValue (@Multisig.lawful_fields 0) Multisig.takes_fields h
  | logicSig =>
    exact Record.unrepeated_of_decodeValue (@LogicSig.lawful_fields 0) LogicSig.takes_fields h
  | envelope => exact Envelope.keysOnce_of_decodeValue h
  | group => exact Record.unrepeated_of_decodeValue (@Group.lawful_fields 0) Group.takes_fields h

/-- The bytes that a value is decoded from repeat no key, but for zeros of other types. -/
theorem keysOnce_of_decode (t : CanonicalType) (bs : Bytes) (x : t.Val) (h : decode bs = .ok x) :
    ∃ v, parse bs = .ok v ∧ t.KeysOnce v := by
  obtain ⟨v, parsed, read⟩ := bind_eq_ok.mp h
  exact ⟨v, parsed, CanonicalType.keysOnce_of_decodeValue read⟩

/-- A payment with parameters of an asset in which a key stands twice. -/
def repeatedParams : Bytes :=
  [0x82, 0xa4, 0x74, 0x79, 0x70, 0x65, 0xa3, 0x70, 0x61, 0x79,
   0xa4, 0x61, 0x70, 0x61, 0x72, 0x82, 0xa1, 0x74, 0x00, 0xa1, 0x74, 0x00]

theorem keysOnce_of_decode_payment :
    decode repeatedParams = .ok (⟨default, .payment default⟩ : Transaction) ∧
      ∃ v, parse repeatedParams = .ok v ∧ CanonicalType.transaction.KeysOnce v := by
  have decoded : decode repeatedParams = .ok (⟨default, .payment default⟩ : Transaction) := by
    decide
  exact ⟨decoded, keysOnce_of_decode .transaction _ _ decoded⟩

/-- Some key may repeat: a payment is read although its foreign parameters hold one key twice. -/
theorem exists_repeated_key :
    decode repeatedParams = .ok (⟨default, .payment default⟩ : Transaction) ∧
      ∃ v, parse repeatedParams = .ok v ∧ ¬ v.Unrepeated := by
  let params : Value := .map [("t", .uint 0), ("t", .uint 0)]
  have parsed : parse repeatedParams = .ok (.map [("type", .str "pay"), ("apar", params)]) := rfl
  refine ⟨by decide, _, parsed, fun unrepeated => ?_⟩
  cases unrepeated with
  | map _ inside =>
    cases inside ("apar", params) (by simp) with
    | map distinct _ => exact absurd distinct (by decide)

end LedgerCodec
