import LedgerCodec.Proofs.Record.Zeros
import LedgerCodec.Proofs.Txn.RoundTrip
/-!
# Explicit zeros

A map that is decoded may hold more zeros than it needs. The tables say what each
key of each record is there to hold, and a zero of that sort, spelled out under a
key that was absent, makes no difference: `CanonicalType.decodeValue_explicit_zero`.
For a transaction these are the keys of all types. Those of its own are read, the
others are judged by the value alone, and both take every spelling for zero.
-/

namespace LedgerCodec

open Wire Reader

/-! ## The keys of every record -/

/-- The keys of a header. -/
def Header.tags : TagTable :=
  [("snd", .fixed 32), ("fee", .number), ("fv", .number), ("lv", .number), ("note", .blob),
   ("gen", .text), ("gh", .fixed 32), ("grp", .fixed 32), ("lx", .fixed 32), ("rekey", .fixed 32)]

/-- The keys of the parameters of an asset. -/
def AssetParams.tags : TagTable :=
  [("t", .number), ("dc", .number), ("df", .flag), ("un", .text), ("an", .text), ("au", .text),
   ("am", .fixed 32), ("m", .fixed 32), ("r", .fixed 32), ("f", .fixed 32), ("c", .fixed 32)]

/-- The keys of a payload of each type. -/
def Payload.tagsOf : TxnType → TagTable
  | .payment => [("rcv", .fixed 32), ("amt", .number), ("close", .fixed 32)]
  | .keyRegistration =>
    [("votekey", .fixed 32), ("selkey", .fixed 32), ("votefst", .number), ("votelst", .number),
     ("votekd", .number)]
  | .assetConfig => [("caid", .number), ("apar", .record AssetParams.tags)]
  | .assetTransfer =>
    [("xaid", .number), ("aamt", .number), ("asnd", .fixed 32), ("arcv", .fixed 32),
     ("aclose", .fixed 32)]
  | .assetFreeze => [("fadd", .fixed 32), ("faid", .number), ("afrz", .flag)]

/-- The keys of transactions of all types. The tag of the type is not among them: it is never
zero. -/
def Transaction.tags : TagTable :=
  Header.tags ++ TxnType.declared.flatMap Payload.tagsOf

/-- The keys of a participant of a multisignature. -/
def Cosigner.tags : TagTable :=
  [("pk", .fixed 32), ("s", .fixed 64)]

/-- The keys of a multisignature. -/
def Multisig.tags : TagTable :=
  [("v", .number), ("thr", .number), ("subsig", .list)]

/-- The keys of a logic signature. -/
def LogicSig.tags : TagTable :=
  [("l", .blob), ("sig", .fixed 64), ("msig", .record Multisig.tags), ("arg", .list)]

/-- The keys of a signed transaction. -/
def Envelope.tags : TagTable :=
  [("sig", .fixed 64), ("msig", .record Multisig.tags), ("lsig", .record LogicSig.tags),
   ("txn", .record Transaction.tags), ("sgnr", .fixed 32)]

/-- The keys of a group. -/
def Group.tags : TagTable :=
  [("txlist", .list)]

/-- The keys of each type. -/
def CanonicalType.tags : CanonicalType → TagTable
  | header => Header.tags
  | payment => Payload.tagsOf .payment
  | keyRegistration => Payload.tagsOf .keyRegistration
  | assetParams => AssetParams.tags
  | assetConfig => Payload.tagsOf .assetConfig
  | assetTransfer => Payload.tagsOf .assetTransfer
  | assetFreeze => Payload.tagsOf .assetFreeze
  | transaction => Transaction.tags
  | cosigner => Cosigner.tags
  | multisig => Multisig.tags
  | logicSig => LogicSig.tags
  | envelope => Envelope.tags
  | group => Group.tags

/-! ## Their fields read zeros -/

theorem Header.tabled : Record.Tabled Header Header.tags where
  distinct := by decide
  keys := rfl
  fields := ⟨⟨_, rfl, readsZeros_fixed⟩, ⟨_, rfl, readsZeros_uint⟩, ⟨_, rfl, readsZeros_uint⟩,
    ⟨_, rfl, readsZeros_uint⟩, ⟨_, rfl, readsZeros_blob⟩, ⟨_, rfl, readsZeros_text⟩,
    ⟨_, rfl, readsZeros_fixed⟩, ⟨_, rfl, readsZeros_fixed⟩, ⟨_, rfl, readsZeros_fixed⟩,
    ⟨_, rfl, readsZeros_fixed⟩⟩

theorem AssetParams.tabled : Record.Tabled AssetParams AssetParams.tags where
  distinct := by decide
  keys := rfl
  fields := ⟨⟨_, rfl, readsZeros_uint⟩, ⟨_, rfl, readsZeros_narrow (by decide)⟩,
    ⟨_, rfl, readsZeros_bool⟩, ⟨_, rfl, readsZeros_text⟩, ⟨_, rfl, readsZeros_text⟩,
    ⟨_, rfl, readsZeros_text⟩, ⟨_, rfl, readsZeros_fixed⟩, ⟨_, rfl, readsZeros_fixed⟩,
    ⟨_, rfl, readsZeros_fixed⟩, ⟨_, rfl, readsZeros_fixed⟩, ⟨_, rfl, readsZeros_fixed⟩⟩

theorem Payment.tabled : Record.Tabled Payment (Payload.tagsOf .payment) where
  distinct := by decide
  keys := rfl
  fields := ⟨⟨_, rfl, readsZeros_fixed⟩, ⟨_, rfl, readsZeros_uint⟩, ⟨_, rfl, readsZeros_fixed⟩⟩

theorem KeyRegistration.tabled :
    Record.Tabled KeyRegistration (Payload.tagsOf .keyRegistration) where
  distinct := by decide
  keys := rfl
  fields := ⟨⟨_, rfl, readsZeros_fixed⟩, ⟨_, rfl, readsZeros_fixed⟩, ⟨_, rfl, readsZeros_uint⟩,
    ⟨_, rfl, readsZeros_uint⟩, ⟨_, rfl, readsZeros_uint⟩⟩

theorem AssetConfig.tabled : Record.Tabled AssetConfig (Payload.tagsOf .assetConfig) where
  distinct := by decide
  keys := rfl
  fields := ⟨⟨_, rfl, readsZeros_uint⟩, ⟨_, rfl, Record.readsZeros_nested AssetParams.tabled⟩⟩

theorem AssetTransfer.tabled : Record.Tabled AssetTransfer (Payload.tagsOf .assetTransfer) where
  distinct := by decide
  keys := rfl
  fields := ⟨⟨_, rfl, readsZeros_uint⟩, ⟨_, rfl, readsZeros_uint⟩, ⟨_, rfl, readsZeros_fixed⟩,
    ⟨_, rfl, readsZeros_fixed⟩, ⟨_, rfl, readsZeros_fixed⟩⟩

theorem AssetFreeze.tabled : Record.Tabled AssetFreeze (Payload.tagsOf .assetFreeze) where
  distinct := by decide
  keys := rfl
  fields := ⟨⟨_, rfl, readsZeros_fixed⟩, ⟨_, rfl, readsZeros_uint⟩, ⟨_, rfl, readsZeros_bool⟩⟩

theorem Cosigner.tabled : Record.Tabled Cosigner Cosigner.tags where
  distinct := by decide
  keys := rfl
  fields := ⟨⟨_, rfl, readsZeros_fixed⟩, ⟨_, rfl, readsZeros_fixed⟩⟩

theorem Multisig.tabled : Record.Tabled Multisig Multisig.tags where
  distinct := by decide
  keys := rfl
  fields := ⟨⟨_, rfl, readsZeros_narrow (by decide)⟩, ⟨_, rfl, readsZeros_narrow (by decide)⟩,
    ⟨_, rfl, readsZeros_list⟩⟩

theorem LogicSig.tabled : Record.Tabled LogicSig LogicSig.tags where
  distinct := by decide
  keys := rfl
  fields := ⟨⟨_, rfl, readsZeros_blob⟩, ⟨_, rfl, readsZeros_fixed⟩,
    ⟨_, rfl, Record.readsZeros_nested Multisig.tabled⟩, ⟨_, rfl, readsZeros_list⟩⟩

theorem Group.tabled : Record.Tabled Group Group.tags where
  distinct := by decide
  keys := rfl
  fields := ⟨_, rfl, readsZeros_list⟩

/-- No transaction is absent, so there is nothing that a zero could be read as. -/
theorem Transaction.readsZeros_nested {c : Content} :
    (Reader.nested : Reader Transaction).ReadsZeros c := by
  intro key v t _ _ absent
  obtain ⟨es, held, -, read, -⟩ := of_decodeValue absent
  cases held
  cases (readBy_eq_ok.mp read).2.1

theorem Envelope.tabled : Record.Tabled Envelope Envelope.tags where
  distinct := by decide
  keys := rfl
  fields := ⟨⟨_, rfl, readsZeros_fixed⟩, ⟨_, rfl, Record.readsZeros_nested Multisig.tabled⟩,
    ⟨_, rfl, Record.readsZeros_nested LogicSig.tabled⟩, ⟨_, rfl, Transaction.readsZeros_nested⟩,
    ⟨_, rfl, readsZeros_fixed⟩⟩

/-! ## Transactions -/

namespace Transaction

theorem nodup_tags : (tags.map Prod.fst).Nodup := by
  decide

theorem tagsOf_subset (type : TxnType) : Payload.tagsOf type ⊆ tags := by
  have declared : type ∈ TxnType.declared := by
    cases type <;> decide
  intro e he
  exact List.mem_append_right _ (List.mem_flatMap.mpr ⟨type, declared, he⟩)

theorem readsZeros_header : (Record.fields (ρ := Header)).All (Field.ReadsZeros tags) :=
  Header.tabled.fields.imp fun _ reads => reads.mono nodup_tags (List.subset_append_left _ _)

theorem readsZeros_payload (type : TxnType) :
    (Payload.fieldsOf type).All (Field.ReadsZeros tags) := by
  have own : (Payload.fieldsOf type).All (Field.ReadsZeros (Payload.tagsOf type)) := by
    cases type with
    | payment => exact Payment.tabled.fields
    | keyRegistration => exact KeyRegistration.tabled.fields
    | assetConfig => exact AssetConfig.tabled.fields
    | assetTransfer => exact AssetTransfer.tabled.fields
    | assetFreeze => exact AssetFreeze.tabled.fields
  exact own.imp fun _ reads => reads.mono nodup_tags (tagsOf_subset type)

theorem keys_tags :
    tags.map Prod.fst = Record.keys Header ++ TxnType.declared.flatMap Payload.keysOf := rfl

/-- A key that is not of a header is of the payload of some type. -/
theorem isPayloadKey_of_tag {key : String} (known : key ∈ tags.map Prod.fst)
    (other : key ∉ Record.keys Header) : Payload.isPayloadKey key = true := by
  rw [keys_tags, List.mem_append] at known
  obtain ⟨type, -, hk⟩ := List.mem_flatMap.mp (known.resolve_left other)
  exact Payload.isPayloadKey_iff.mpr ⟨type, hk⟩

/-- A zero under a key of any type makes no difference to a transaction. -/
theorem decodeValue_insert_zero {before after : List (String × Value)} {key root : String}
    {c : Content} {z : Value} {t : Transaction} (stands : tags.lookup key = some c)
    (zero : c.Zero z) (h : decodeValue root (.map (before ++ after)) = .ok t)
    (fresh : key ∉ (before ++ after).map Prod.fst) :
    decodeValue root (.map (before ++ (key, z) :: after)) = .ok t := by
  obtain ⟨es, held, distinct, read, foreign⟩ := of_decodeValue h
  cases held
  obtain ⟨header, tag, payload⟩ := readBy_eq_ok.mp read
  have known : key ∈ tags.map Prod.fst := List.mem_map.mpr ⟨_, mem_of_lookup stands, rfl⟩
  have adds : tags.Adds (before ++ after) (before ++ (key, z) :: after) :=
    TagTable.adds_insert stands zero fresh
  rw [decodeValue_eq_ok (nodup_keys_insert distinct fresh), readBy_eq_ok]
  refine ⟨⟨Fields.readBy_of_adds readsZeros_header adds header, ?tag,
    Fields.readBy_of_adds (readsZeros_payload _) adds payload⟩, ?foreign⟩
  case tag =>
    have untouched : Payload.typeKey ≠ key := by
      rintro rfl
      revert known
      decide
    simpa only [Pending.find?, lookup_insert fresh, if_neg untouched] using tag
  case foreign =>
    intro e he other
    rcases List.mem_cons.mp (List.perm_middle.mem_iff.mp he) with rfl | he
    · refine ⟨isPayloadKey_of_tag known fun own => ?_, zero.isZero⟩
      exact other (mem_keysFor.mpr (.inl own))
    · exact foreign e he other

end Transaction

/-! ## All types -/

/-- A zero that is spelled out under a key that was absent changes nothing in what is decoded. -/
theorem CanonicalType.decodeValue_explicit_zero (t : CanonicalType) {root key : String}
    {c : Content} {before after : List (String × Value)} {z : Value} {x : t.Val}
    (decoded : decodeValue root (.map (before ++ after)) = .ok x)
    (fresh : key ∉ (before ++ after).map Prod.fst) (stands : t.tags.lookup key = some c)
    (zero : c.Zero z) : decodeValue root (.map (before ++ (key, z) :: after)) = .ok x := by
  cases t with
  | header => exact Record.decodeValue_insert_zero Header.tabled stands zero decoded fresh
  | payment => exact Record.decodeValue_insert_zero Payment.tabled stands zero decoded fresh
  | keyRegistration =>
    exact Record.decodeValue_insert_zero KeyRegistration.tabled stands zero decoded fresh
  | assetParams => exact Record.decodeValue_insert_zero AssetParams.tabled stands zero decoded fresh
  | assetConfig => exact Record.decodeValue_insert_zero AssetConfig.tabled stands zero decoded fresh
  | assetTransfer =>
    exact Record.decodeValue_insert_zero AssetTransfer.tabled stands zero decoded fresh
  | assetFreeze => exact Record.decodeValue_insert_zero AssetFreeze.tabled stands zero decoded fresh
  | transaction => exact Transaction.decodeValue_insert_zero stands zero decoded fresh
  | cosigner => exact Record.decodeValue_insert_zero Cosigner.tabled stands zero decoded fresh
  | multisig => exact Record.decodeValue_insert_zero Multisig.tabled stands zero decoded fresh
  | logicSig => exact Record.decodeValue_insert_zero LogicSig.tabled stands zero decoded fresh
  | envelope => exact Record.decodeValue_insert_zero Envelope.tabled stands zero decoded fresh
  | group => exact Record.decodeValue_insert_zero Group.tabled stands zero decoded fresh

/-- A payment spells out parameters of an asset: a number, a hash and a text, none of them set. -/
theorem CanonicalType.decodeValue_zero_params :
    let before : List (String × Value) := [("type", .str "pay"), ("fee", .uint 7)]
    let after : List (String × Value) := [("amt", .uint 5)]
    let params : List (String × Value) :=
      [("t", .uint 0), ("am", .bin (List.replicate 32 0)), ("un", .nil)]
    let t : Transaction := ⟨{ (default : Header) with fee := 7 },
      .payment { (default : Payment) with amount := 5 }⟩
    decodeValue rootKey (.map (before ++ after)) = .ok t ∧
      Transaction.tags.lookup "apar" = some (.record AssetParams.tags) ∧
      (Content.record AssetParams.tags).Zero (.map params) ∧
      decodeValue rootKey (.map (before ++ ("apar", .map params) :: after)) = .ok t := by
  intro before after params t
  have decoded : decodeValue rootKey (.map (before ++ after)) = .ok t := by decide +kernel
  have zero : (Content.record AssetParams.tags).Zero (.map params) := by
    refine .record (by decide) (by decide) ?_
    simp only [params, List.forall_mem_cons, List.not_mem_nil, false_imp_iff, implies_true,
      and_true]
    refine ⟨?_, ?_, ?_⟩ <;> intro c here <;> cases here
    · exact .number
    · exact .fixed 32
    · exact .nil .text
  exact ⟨decoded, rfl, zero,
    CanonicalType.decodeValue_explicit_zero .transaction decoded (by decide) rfl zero⟩

end LedgerCodec
