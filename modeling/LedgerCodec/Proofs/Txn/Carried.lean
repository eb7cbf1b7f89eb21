import LedgerCodec.Proofs.Record.Carried
import LedgerCodec.Proofs.Txn.RoundTrip
/-!
# What decoding keeps

Bytes that decode to a transaction hold a map, and so does the encoding of the
transaction. The senses of all keys are written down here, and the second map
holds what is carried over from the first: nothing is lost but zeros, and nothing
comes in. What stands under keys of other types is zero.
-/

namespace LedgerCodec

open Wire

/-! ## The senses of all keys -/

/-- What the keys of asset parameters stand for. -/
def AssetParams.senses : Senses :=
  [("t", .number), ("dc", .narrow UInt32.size), ("df", .flag), ("un", .text), ("an", .text),
   ("au", .text), ("am", .fixed 32), ("m", .fixed 32), ("r", .fixed 32), ("f", .fixed 32),
   ("c", .fixed 32)]

/-- What the keys of every transaction stand for. -/
def Header.senses : Senses :=
  [("snd", .fixed 32), ("fee", .number), ("fv", .number), ("lv", .number), ("note", .blob),
   ("gen", .text), ("gh", .fixed 32), ("grp", .fixed 32), ("lx", .fixed 32), ("rekey", .fixed 32)]

/-- What the keys of transactions of a type stand for. -/
def Payload.sensesOf : TxnType → Senses
  | .payment => [("rcv", .fixed 32), ("amt", .number), ("close", .fixed 32)]
  | .keyRegistration =>
    [("votekey", .fixed 32), ("selkey", .fixed 32), ("votefst", .number), ("votelst", .number),
     ("votekd", .number)]
  | .assetConfig => [("caid", .number), ("apar", .record AssetParams.senses)]
  | .assetTransfer =>
    [("xaid", .number), ("aamt", .number), ("asnd", .fixed 32), ("arcv", .fixed 32),
     ("aclose", .fixed 32)]
  | .assetFreeze => [("fadd", .fixed 32), ("faid", .number), ("afrz", .flag)]

/-- What the keys of a transaction of a type stand for. -/
def TxnType.senses (t : TxnType) : Senses :=
  Header.senses ++ [("type", .text)] ++ Payload.sensesOf t

/-! ## Fields mean their senses -/

open Kind

theorem AssetParams.means_fields :
    (Record.fields (ρ := AssetParams)).All (Field.Means AssetParams.senses) :=
  ⟨⟨_, rfl, means_uint64⟩, ⟨_, rfl, means_narrow _⟩, ⟨_, rfl, means_bool⟩, ⟨_, rfl, means_text⟩,
    ⟨_, rfl, means_text⟩, ⟨_, rfl, means_text⟩, ⟨_, rfl, means_fixed⟩, ⟨_, rfl, means_fixed⟩,
    ⟨_, rfl, means_fixed⟩, ⟨_, rfl, means_fixed⟩, ⟨_, rfl, means_fixed⟩⟩

theorem Header.means_fields (t : TxnType) :
    (Record.fields (ρ := Header)).All (Field.Means t.senses) :=
  ⟨⟨_, rfl, means_fixed⟩, ⟨_, rfl, means_uint64⟩, ⟨_, rfl, means_uint64⟩, ⟨_, rfl, means_uint64⟩,
    ⟨_, rfl, means_blob⟩, ⟨_, rfl, means_text⟩, ⟨_, rfl, means_fixed⟩, ⟨_, rfl, means_fixed⟩,
    ⟨_, rfl, means_fixed⟩, ⟨_, rfl, means_fixed⟩⟩

theorem Payload.means_fieldsOf (t : TxnType) :
    (Payload.fieldsOf t).All (Field.Means t.senses) := by
  cases t with
  | payment => exact ⟨⟨_, rfl, means_fixed⟩, ⟨_, rfl, means_uint64⟩, ⟨_, rfl, means_fixed⟩⟩
  | keyRegistration =>
    exact ⟨⟨_, rfl, means_fixed⟩, ⟨_, rfl, means_fixed⟩, ⟨_, rfl, means_uint64⟩,
      ⟨_, rfl, means_uint64⟩, ⟨_, rfl, means_uint64⟩⟩
  | assetConfig =>
    exact ⟨⟨_, rfl, means_uint64⟩,
      ⟨_, rfl, means_nested (@AssetParams.lawful_fields 0) AssetParams.means_fields (by decide)⟩⟩
  | assetTransfer =>
    exact ⟨⟨_, rfl, means_uint64⟩, ⟨_, rfl, means_uint64⟩, ⟨_, rfl, means_fixed⟩,
      ⟨_, rfl, means_fixed⟩, ⟨_, rfl, means_fixed⟩⟩
  | assetFreeze => exact ⟨⟨_, rfl, means_fixed⟩, ⟨_, rfl, means_uint64⟩, ⟨_, rfl, means_bool⟩⟩

theorem Payload.keysOf_eq_senses (t : TxnType) : keysOf t = (Payload.sensesOf t).keys := by
  cases t <;> rfl

/-! ## Transactions -/

namespace Transaction

theorem keysFor_eq_senses (t : TxnType) : keysFor t = t.senses.keys := by
  cases t <;> rfl

section

variable {es : List (String × Value)} {t : Transaction}
  (read : (readBy fun key => (⟨es⟩ : Pending).find? key) = .ok t)
include read

theorem comesTo_header : (Record.fields (ρ := Header)).AllOf
    (fun f y => t.type.senses.comesTo es f.key = f.kind.writer.reading y) (Record.row t.header) :=
  Fields.comesTo_of_readBy (@Header.lawful_fields 0).kinds (Header.means_fields _)
    (readBy_eq_ok.mp read).1

theorem comesTo_payload : (Payload.fieldsOf t.payload.type).AllOf
    (fun f y => t.type.senses.comesTo es f.key = f.kind.writer.reading y) t.payload.row :=
  Fields.comesTo_of_readBy (Payload.lawful_fieldsOf 0 _).kinds (Payload.means_fieldsOf _)
    (readBy_eq_ok.mp read).2.2

theorem comesTo_tag : t.type.senses.comesTo es Payload.typeKey = .is (.str t.type.tag) := by
  unfold Senses.comesTo
  rw [(readBy_eq_ok.mp read).2.1]
  cases t.type <;> rfl

/-- The entries of a transaction are what the keys of its type come to. -/
theorem mem_entries_iff_comesTo {key : String} {w : Value} : (key, w) ∈ t.entries ↔
    key ∈ t.type.senses.keys ∧ t.type.senses.comesTo es key = .is w := by
  have tag : (key, w) = (Payload.typeKey, .str t.type.tag) ↔
      key = Payload.typeKey ∧ t.type.senses.comesTo es key = .is w := by
    rw [Prod.mk.injEq]
    refine and_congr_right fun here => ?_
    rw [here, comesTo_tag read, Reading.is.injEq, eq_comm]
  have keys : key ∈ t.type.senses.keys ↔ key ∈ Record.keys Header ∨ key = Payload.typeKey ∨
      key ∈ (Payload.fieldsOf t.payload.type).keys := by
    rw [← keysFor_eq_senses, mem_keysFor, Payload.keysOf_eq]
    rfl
  rw [mem_entries, Payload.entries, Fields.mem_entries_iff_comesTo (comesTo_header read), tag,
    Fields.mem_entries_iff_comesTo (comesTo_payload read), keys, or_and_right, or_and_right]
  rfl

theorem comesTo_ne_wrong {key : String} (known : key ∈ t.type.senses.keys) :
    t.type.senses.comesTo es key ≠ .wrong := by
  rw [← keysFor_eq_senses] at known
  rcases mem_keysFor.mp known with hk | rfl | hk
  · exact Fields.comesTo_ne_wrong (comesTo_header read) hk
  · rw [comesTo_tag read]
    exact nofun
  · exact Fields.comesTo_ne_wrong (comesTo_payload read) (Payload.keysOf_eq t.type ▸ hk)

/-- A transaction is written as what is carried over from the map it was read from. -/
theorem toValue_eq_carried (distinct : (es.map Prod.fst).Nodup) :
    (entriesOf t).toValue = .map (t.type.senses.carried es) := by
  unfold Entries.toValue
  rw [entriesOf_list]
  apply congrArg Value.map
  apply Senses.sortByKey_eq_carried t.nodup_keys_entries distinct
  intro key w
  exact mem_entries_iff_comesTo read

end

/-- Keys of payloads that a type does not have belong to others. -/
theorem other_of_payloadKey {t : TxnType} {key : String} (unknown : key ∉ t.senses.keys)
    (known : Payload.isPayloadKey key = true) : ∃ u ≠ t, key ∈ (Payload.sensesOf u).keys := by
  obtain ⟨u, hu⟩ := Payload.isPayloadKey_iff.mp known
  refine ⟨u, ?_, Payload.keysOf_eq_senses u ▸ hu⟩
  rintro rfl
  rw [← keysFor_eq_senses] at unknown
  exact unknown (mem_keysFor.mpr (.inr (.inr hu)))

/-- What a transaction of a type keeps of the map from which it was read. -/
structure Keeps (t : TxnType) (es es' : List (String × Value)) : Prop where
  tag : ("type", .str t.tag) ∈ es
  carries : t.senses.Carries es es'
  /-- So do the parameters of an asset. -/
  params (inner' : List (String × Value)) : ("apar", .map inner') ∈ es' →
    ∃ inner, ("apar", .map inner) ∈ es ∧ AssetParams.senses.Carries inner inner'
  /-- What is not kept of them was zero. -/
  own : ∀ e ∈ es, e.1 ∈ t.senses.keys → t.senses.entry e.1 e.2 ≠ .wrong
  /-- Other keys belong to other types, and hold zeros. -/
  foreign : ∀ e ∈ es, e.1 ∉ t.senses.keys →
    (∃ u ≠ t, e.1 ∈ (Payload.sensesOf u).keys) ∧ e.2.isZero = true

theorem params_of_carries {t : TxnType} {es es' : List (String × Value)}
    (carries : t.senses.Carries es es') {inner' : List (String × Value)}
    (h : ("apar", .map inner') ∈ es') :
    ∃ inner, ("apar", .map inner) ∈ es ∧ AssetParams.senses.Carries inner inner' := by
  obtain ⟨v, hv, is⟩ := (carries.mem_iff _ _).mp h
  obtain ⟨sense, here, is⟩ := Senses.sense_of_entry is
  cases t with
  | assetConfig =>
    obtain rfl : Sense.record AssetParams.senses = sense := Option.some.inj here
    obtain ⟨inner, _, rfl, hw, carries⟩ := Senses.carries_of_record is
    cases hw
    exact ⟨inner, hv, carries⟩
  | _ => cases here

/-- Decoding loses nothing but zeros, and invents nothing. -/
theorem decode_keeps {bs : Bytes} {t : Transaction} (h : decode bs = .ok t) :
    ∃ es es', parse bs = .ok (.map es) ∧ parse (encode t) = .ok (.map es') ∧
      Keeps t.type es es' := by
  obtain ⟨v, parsed, decoded⟩ := bind_eq_ok.mp h
  obtain ⟨es, rfl, distinct, read, others⟩ := of_decodeValue decoded
  have fits := (@lawful 30).fits_of_decodeValue (fits_of_parse parsed) decoded
  have again : parse (encode t) = .ok (.map (t.type.senses.carried es)) :=
    toValue_eq_carried read distinct ▸ parse_write fits
  have carries : t.type.senses.Carries es (t.type.senses.carried es) :=
    Senses.carries_carried distinct
  refine ⟨es, _, parsed, again, ⟨?_, carries, ?_, ?_, ?_⟩⟩
  · exact mem_of_lookup (Pending.find?_eq_some.mp (readBy_eq_ok.mp read).2.1).1
  · intro inner'
    exact params_of_carries carries
  · intro (key, v) he known
    rw [← Senses.comesTo_of_mem distinct known he]
    exact comesTo_ne_wrong read known
  · intro e he unknown
    obtain ⟨payload, zero⟩ := others e he (keysFor_eq_senses _ ▸ unknown)
    exact ⟨other_of_payloadKey unknown payload, zero⟩

/-- A new asset: the text under `note` is kept as bytes, the zeros under `t` and `amt` are not. -/
theorem decode_keeps_config :
    let bs : Bytes := [0x85, 0xa4, 0x74, 0x79, 0x70, 0x65, 0xa4, 0x61, 0x63, 0x66, 0x67,
      0xa4, 0x6e, 0x6f, 0x74, 0x65, 0xa2, 0x68, 0x69,
      0xa4, 0x61, 0x70, 0x61, 0x72, 0x83, 0xa2, 0x75, 0x6e, 0xa1, 0x55, 0xa1, 0x74, 0x00,
      0xa2, 0x64, 0x63, 0x02, 0xa3, 0x61, 0x6d, 0x74, 0x00, 0xa3, 0x66, 0x65, 0x65, 0x05]
    let t : Transaction := ⟨{ (default : Header) with fee := 5, note := [0x68, 0x69] },
      .assetConfig { (default : AssetConfig) with
        params := { (default : AssetParams) with decimals := 2, unitName := "U" } }⟩
    decode bs = .ok t ∧
      encode t = [0x84, 0xa4, 0x61, 0x70, 0x61, 0x72, 0x82, 0xa2, 0x64, 0x63, 0x02,
        0xa2, 0x75, 0x6e, 0xa1, 0x55, 0xa3, 0x66, 0x65, 0x65, 0x05,
        0xa4, 0x6e, 0x6f, 0x74, 0x65, 0xc4, 0x02, 0x68, 0x69,
        0xa4, 0x74, 0x79, 0x70, 0x65, 0xa4, 0x61, 0x63, 0x66, 0x67] ∧
      ∃ es es', parse bs = .ok (.map es) ∧ parse (encode t) = .ok (.map es') ∧
        Keeps .assetConfig es es' := by
  intro bs t
  have decoded : decode bs = .ok t := by decide +kernel
  exact ⟨decoded, by decide +kernel, decode_keeps decoded⟩

end Transaction

end LedgerCodec
