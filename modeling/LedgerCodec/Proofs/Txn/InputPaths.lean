import LedgerCodec.Proofs.Txn.Assignment
/-!
# The two ways in

A transaction comes in as bytes or as JSON. Both readers are given an assignment
with a type, in any of its spellings, and agree: either both make the transaction
of that type, or both name a field that is set and belongs to another one.

The wire reader judges entries that are left by their bytes. The JSON reader
builds all five payloads and judges them by what they would push. Both amount to
`Fields.Sets`.
-/

namespace LedgerCodec

open Wire

/-! ## Candidates -/

theorem Payload.firstSetKey?_eq (p : Payload) :
    p.firstSetKey? = (p.entries.map Prod.fst).head? := by
  rw [firstSetKey?, Entries.keys, pushRecord_list]
  rfl

namespace Transaction

/-- Candidates of other types are passed over if nothing is set in them. -/
theorem choose_eq_filter {t : TxnType} {ps : List Payload}
    (blank : ∀ p ∈ ps, p.type ≠ t → p.firstSetKey? = none) (chosen : Option Payload) :
    choose t chosen ps = choose t chosen (ps.filter fun p => p.type = t) := by
  induction ps generalizing chosen with
  | nil => rfl
  | cons p ps ih =>
    have rest := ih fun q hq => blank q (List.mem_cons_of_mem _ hq)
    -- The one of the type is kept, and the others are passed over since nothing is set in them.
    by_cases own : p.type = t
    · rw [List.filter_cons_of_pos (by simpa using own), choose, if_pos own, choose, if_pos own, rest]
    · rw [List.filter_cons_of_neg (by simpa using own), choose, if_neg own,
        blank p List.mem_cons_self own]
      exact rest chosen

/-- The first candidate of another type in which something is set is named. -/
theorem choose_eq_error {t : TxnType} {ps : List Payload}
    (set : ∃ p ∈ ps, p.type ≠ t ∧ p.firstSetKey? ≠ none) (chosen : Option Payload) :
    ∃ p ∈ ps, ∃ key, p.type ≠ t ∧ p.firstSetKey? = some key ∧
      choose t chosen ps = .error (.fieldNotAllowed key t) := by
  induction ps generalizing chosen with
  | nil =>
    obtain ⟨p, hp, -⟩ := set
    cases hp
  | cons p ps ih =>
    -- A candidate that is not refused leaves the refusal to a later one.
    have later (skip : p.type = t ∨ p.firstSetKey? = none) :
        ∃ q ∈ ps, q.type ≠ t ∧ q.firstSetKey? ≠ none := by
      obtain ⟨q, hq, other, found⟩ := set
      rcases List.mem_cons.mp hq with rfl | hq
      · exact absurd skip (not_or.mpr ⟨other, found⟩)
      · exact ⟨q, hq, other, found⟩
    by_cases own : p.type = t
    · obtain ⟨q, hq, key, other, found, refused⟩ := ih (later (.inl own)) (some p)
      refine ⟨q, List.mem_cons_of_mem _ hq, key, other, found, ?_⟩
      rw [choose, if_pos own, refused]
    · cases found : p.firstSetKey? with
      | some key =>
        refine ⟨p, List.mem_cons_self, key, own, found, ?_⟩
        rw [choose, if_neg own, found]
      | none =>
        obtain ⟨q, hq, key, other, set, refused⟩ := ih (later (.inr found)) chosen
        refine ⟨q, List.mem_cons_of_mem _ hq, key, other, set, ?_⟩
        rw [choose, if_neg own, found]
        exact refused

end Transaction

namespace Assignment

variable {a : Assignment} {t u : TxnType} {key : String}

/-! ## Reading from the wire -/

section Wire

variable {es : List (String × Value)} (h : Spelled wireSlots (a.fullRow t) es)

include h

theorem holds_payload (u : TxnType) :
    (payloadWireSlots u).AllOf (Slot.Holds fun key => es.lookup key) (a.row u) := by
  obtain ⟨-, -, pay, keyreg, acfg, axfer, afrz⟩ := h.holds
  cases u
  · exact pay
  · exact keyreg
  · exact acfg
  · exact axfer
  · exact afrz

theorem readBy_payload (u : TxnType) :
    (Payload.fieldsOf u).readBy (fun key => es.lookup key) = .ok (a.row u) := by
  have holds := holds_payload h u
  have kinds := (Payload.lawful_fieldsOf 0 u).kinds
  have optional := Payload.optional_fieldsOf u
  rw [Fields.readBy_eq_ok]
  cases u with
  | assetConfig =>
    have params : Slot.Holds (fun key => es.lookup key) AssetConfig.paramsField.wireMapSlot
        a.assetConfig.params := holds.2
    exact ⟨Fields.ofHeld_of_holds (l := .field AssetConfig.assetField) kinds.1 optional.1 holds.1,
      AssetConfig.ofHeld_params params⟩
  | _ => exact Fields.ofHeld_of_holds kinds optional holds

theorem zeroAs_payload (u : TxnType) :
    (Payload.fieldsOf u).AllOf (Fields.ZeroAs fun key => es.lookup key) (a.row u) := by
  have holds := holds_payload h u
  have kinds := (Payload.lawful_fieldsOf 0 u).kinds
  have optional := Payload.optional_fieldsOf u
  have zeros := Payload.isZero_of_write u
  cases u with
  | assetConfig =>
    have params : Slot.Holds (fun key => es.lookup key) AssetConfig.paramsField.wireMapSlot
        a.assetConfig.params := holds.2
    exact ⟨Fields.zeroAs_of_holds (l := .field AssetConfig.assetField) kinds.1 optional.1 zeros.1
      holds.1, AssetConfig.zeroAs_params params⟩
  | _ => exact Fields.zeroAs_of_holds kinds optional zeros holds

theorem ne_nil : ∀ e ∈ es, e.2 ≠ .nil := by
  have plain {σ : Type} {l : Fields σ} (kinds : l.All fun f => f.kind.Lawful 1) (x : σ) :
      l.wireSlots.AllOf (fun s y => ∀ v, s.spells y v → v ≠ .nil) x := by
    refine Layout.allOf_map.mpr ((kinds.allOf x).imp fun f y lawful v hv => ?_)
    rw [hv]
    exact lawful.write_ne_nil y
  have payload (u : TxnType) :
      (payloadWireSlots u).AllOf (fun s y => ∀ v, s.spells y v → v ≠ .nil) (a.row u) := by
    have kinds := (Payload.lawful_fieldsOf 0 u).kinds
    cases u with
    | assetConfig =>
      refine ⟨plain (l := .field AssetConfig.assetField) kinds.1 _, fun v hv => ?_⟩
      obtain ⟨params, rfl, -⟩ := hv
      exact nofun
    | _ => exact plain kinds _
  refine h.forall_mem (P := fun _ v => v ≠ .nil) ⟨?_, plain Header.lawful_fields.kinds _,
    payload _, payload _, payload _, payload _, payload _⟩
  rintro v rfl
  exact nofun

theorem find?_eq : (fun key => (⟨es⟩ : Pending).find? key) = fun key => es.lookup key :=
  funext fun key => Pending.find?_of_ne_nil (ne_nil h) key

/-- The keys that are met are those of the header, of the tag and of payloads. -/
theorem known {e : String × Value} (he : e ∈ es) :
    e.1 ∈ Record.keys Header ∨ e.1 = Payload.typeKey ∨ ∃ u, e.1 ∈ Payload.keysOf u := by
  have met : e.1 ∈ [Payload.typeKey] ++ (Record.keys Header ++ (Payload.keysOf .payment ++
      (Payload.keysOf .keyRegistration ++ (Payload.keysOf .assetConfig ++
        (Payload.keysOf .assetTransfer ++ Payload.keysOf .assetFreeze))))) := h.known e he
  simp only [List.mem_append, List.mem_singleton] at met
  rcases met with key | key | key | key | key | key | key
  · exact .inr (.inl key)
  · exact .inl key
  all_goals exact .inr (.inr ⟨_, key⟩)

theorem readBy_txn : Transaction.readBy (fun key => es.lookup key) = .ok (a.txn t) := by
  obtain ⟨tag, header, -⟩ := h.holds
  have payload := readBy_payload h t
  rw [Transaction.readBy_eq_ok]
  refine ⟨?_, ?_, by cases t <;> exact payload⟩
  · exact Fields.readBy_eq_ok.mpr (Fields.ofHeld_of_holds (@Header.lawful_fields 0).kinds
      Header.optional_fields header)
  · rcases tag with ⟨v, hv, rfl⟩ | ⟨-, none⟩
    · rw [show es.lookup Payload.typeKey = _ from hv, Transaction.type, txn, type_payload]
    · exact none.elim

/-- An entry is zero unless the field with its key is set. -/
theorem sets_iff {e : String × Value} (he : e ∈ es) (key : e.1 ∈ Payload.keysOf u) :
    a.Sets u e.1 ↔ e.2.isZero = false := by
  rw [Payload.keysOf_eq] at key
  have set := Fields.sets_iff_of_zeroAs (zeroAs_payload h u) key
  rwa [show es.lookup e.1 = some e.2 from (lookup_eq_some h.distinct).mpr he] at set

/-- An entry that the type does not have belongs to another type, and is zero unless it is set
there. -/
theorem of_mem_foreign {e : String × Value} (he : e ∈ Transaction.foreign t es) :
    Payload.isPayloadKey e.1 = true ∧ (a.SetsForeign t e.1 ↔ e.2.isZero = false) := by
  obtain ⟨he, other⟩ := Transaction.mem_foreign.mp he
  rw [Transaction.mem_keysFor, not_or, not_or] at other
  obtain ⟨u, key⟩ := ((known h he).resolve_left other.1).resolve_left other.2.1
  refine ⟨Payload.isPayloadKey_iff.mpr ⟨u, key⟩, ?_, ?_⟩
  · rintro ⟨v, -, set⟩
    exact (sets_iff h he (mem_keysOf_of_sets set)).mp set
  · intro some
    refine ⟨u, ?_, (sets_iff h he key).mpr some⟩
    rintro rfl
    exact other.2.2 key

/-- A field of another type that is set has an entry. -/
theorem exists_foreign (set : a.SetsForeign t key) :
    ∃ e ∈ Transaction.foreign t es, e.2.isZero = false := by
  obtain ⟨u, other, set⟩ := set
  have hk := mem_keysOf_of_sets set
  have some := (Fields.sets_iff_of_zeroAs (zeroAs_payload h u) (Payload.keysOf_eq u ▸ hk)).mp set
  cases hv : es.lookup key with
  | none =>
    rw [show es.lookup key = none from hv] at some
    cases some
  | some v =>
    rw [show es.lookup key = _ from hv] at some
    exact ⟨(key, v), Transaction.mem_foreign.mpr ⟨mem_of_lookup hv,
      Transaction.not_mem_keysFor other hk⟩, some⟩

theorem decodeValue_eq (root : String) : (decodeValue root (.map es) : Except Error Transaction) =
    Transaction.checkForeign t (Transaction.foreign t es) >>= fun _ => .ok (a.txn t) := by
  have type : (a.txn t).type = t := type_payload a t
  rw [Transaction.decodeValue_map root h.distinct, find?_eq h, readBy_txn h, bind_ok, type]

/-- Values of one type are read from the wire. -/
theorem decodeValue_ok (own : ∀ key, ¬ a.SetsForeign t key) (root : String) :
    decodeValue root (.map es) = .ok (a.txn t) := by
  have zero : Transaction.checkForeign t (Transaction.foreign t es) = .ok () := by
    refine Transaction.checkForeign_eq_ok.mpr fun e he => ?_
    obtain ⟨payload, set⟩ := of_mem_foreign h he
    refine ⟨payload, ?_⟩
    rw [← Bool.not_eq_false, ← set]
    exact own e.1
  rw [decodeValue_eq h, zero, bind_ok]

/-- Values of several types are refused on the wire. -/
theorem decodeValue_error (set : a.SetsForeign t key) (root : String) : ∃ key, a.SetsForeign t key ∧
    (decodeValue root (.map es) : Except Error Transaction) = .error (.fieldNotAllowed key t) := by
  obtain ⟨e, he, some, refused⟩ := Transaction.checkForeign_eq_error
    (fun e he => (of_mem_foreign h he).1) (exists_foreign h set)
  exact ⟨e.1, (of_mem_foreign h he).2.mpr some, by rw [decodeValue_eq h, refused, bind_error]⟩

end Wire

/-! ## Choosing a payload -/

theorem set_of_firstSetKey? (h : (a.payload u).firstSetKey? = some key) : a.Sets u key := by
  rw [Payload.firstSetKey?_eq, entries_payload] at h
  have pushed := List.mem_of_mem_head? (Option.mem_def.mpr h)
  exact (Fields.mem_keys_entries_iff (Payload.lawful_fieldsOf 0 u).kinds
    (Payload.optional_fieldsOf u)).mp pushed

theorem firstSetKey?_ne_none (h : a.Sets u key) : (a.payload u).firstSetKey? ≠ none := by
  have pushed := (Fields.mem_keys_entries_iff (Payload.lawful_fieldsOf 0 u).kinds
    (Payload.optional_fieldsOf u)).mpr h
  rw [Payload.firstSetKey?_eq, entries_payload]
  intro none
  rw [List.head?_eq_none_iff] at none
  rw [none] at pushed
  cases pushed

/-- The flat row of an assignment with a type. -/
def flatRow (a : Assignment) (t : TxnType) : Transaction.FlatRow :=
  (some t, Record.row a.header, Record.row a.payment, Record.row a.keyRegistration,
    Record.row a.assetConfig, Record.row a.assetTransfer, Record.row a.assetFreeze)

theorem ofFlat_flatRow (a : Assignment) (t : TxnType) : Transaction.ofFlat (a.flatRow t) =
    Transaction.choose t none (TxnType.declared.map a.payload) >>= fun p => .ok ⟨a.header, p⟩ :=
  rfl

/-- Values of one type make a transaction. -/
theorem ofFlat_ok (own : ∀ key, ¬ a.SetsForeign t key) :
    Transaction.ofFlat (a.flatRow t) = .ok (a.txn t) := by
  have blank : ∀ p ∈ TxnType.declared.map a.payload, p.type ≠ t → p.firstSetKey? = none := by
    intro p hp other
    obtain ⟨u, -, rfl⟩ := List.mem_map.mp hp
    rw [type_payload] at other
    cases found : (a.payload u).firstSetKey? with
    | none => rfl
    | some key => exact absurd ⟨u, other, set_of_firstSetKey? found⟩ (own key)
  have only : (TxnType.declared.map a.payload).filter (fun p => p.type = t) = [a.payload t] := by
    cases t <;> rfl
  rw [ofFlat_flatRow, Transaction.choose_eq_filter blank, only, Transaction.choose,
    if_pos (type_payload a t)]
  rfl

/-- Values of several types are refused. -/
theorem ofFlat_error (set : a.SetsForeign t key) : ∃ key, a.SetsForeign t key ∧
    Transaction.ofFlat (a.flatRow t) = .error (.fieldNotAllowed key t) := by
  obtain ⟨u, other, set⟩ := set
  -- Every type has a candidate, and that of the field's type would be refused if no other were.
  have declared : u ∈ TxnType.declared := by
    cases u <;> decide
  have candidate : ∃ p ∈ TxnType.declared.map a.payload, p.type ≠ t ∧ p.firstSetKey? ≠ none := by
    refine ⟨a.payload u, List.mem_map_of_mem declared, ?_, firstSetKey?_ne_none set⟩
    rwa [type_payload]
  obtain ⟨p, hp, key, other, found, refused⟩ := Transaction.choose_eq_error candidate none
  obtain ⟨u, -, rfl⟩ := List.mem_map.mp hp
  rw [type_payload] at other
  refine ⟨key, ⟨u, other, set_of_firstSetKey? found⟩, ?_⟩
  rw [ofFlat_flatRow, refused, bind_error]

/-! ## Reading from JSON -/

section Json

variable {ms : List (String × Json)} (h : Spelled jsonSlots (a.fullRow t) ms)
  (source : Json.Source)

include h

theorem reads_payload (u : TxnType) : (Payload.fieldsOf u).members.AllOf
    (fun m y => ∀ v, (m.name, v) ∈ ms → m.form.read source v.doc = .ok y) (a.row u) := by
  obtain ⟨-, -, pay, keyreg, acfg, axfer, afrz⟩ := h.spells
  cases u with
  | payment => exact Fields.reads_of_spells Payment.lawful_forms source pay
  | keyRegistration => exact Fields.reads_of_spells KeyRegistration.lawful_forms source keyreg
  | assetConfig =>
    obtain ⟨asset, params⟩ := acfg
    refine ⟨Fields.reads_of_spells (l := .field AssetConfig.assetField) (Json.Form.lawful_number _)
      source asset, fun v hv => ?_⟩
    obtain ⟨members, rfl, spelled⟩ := params v hv
    exact Record.read_of_spelled (by decide) AssetParams.lawful_forms source spelled
  | assetTransfer => exact Fields.reads_of_spells AssetTransfer.lawful_forms source axfer
  | assetFreeze => exact Fields.reads_of_spells AssetFreeze.lawful_forms source afrz

theorem present_payload (u : TxnType) : (Payload.fieldsOf u).members.AllOf
    (fun m y => m.name ∈ ms.map Prod.fst ∨ m.absent = some y) (a.row u) := by
  obtain ⟨-, -, pay, keyreg, acfg, axfer, afrz⟩ := h.complete
  cases u with
  | payment => exact Fields.present_of_complete pay
  | keyRegistration => exact Fields.present_of_complete keyreg
  | assetConfig => exact acfg
  | assetTransfer => exact Fields.present_of_complete axfer
  | assetFreeze => exact Fields.present_of_complete afrz

theorem read_flat : Transaction.flat.read source (Json.record ms).doc = .ok (a.flatRow t) := by
  obtain ⟨tag, header, -⟩ := h.spells
  obtain ⟨tagged, present, -⟩ := h.complete
  have readTag : ∀ v, (Payload.typeKey, v) ∈ ms →
      Json.Form.optionalType.read source v.doc = .ok (some t) := by
    intro v hv
    obtain rfl : v = .text t.tag := tag v hv
    simp [Json.doc, Json.Form.optionalType, Json.Form.readType, Json.Form.readTag, Except.map]
  exact Json.RecordForm.read_record (r := Transaction.flat) (by decide) h.distinct h.known
    ⟨readTag, Fields.reads_of_spells Header.lawful_forms source header,
      reads_payload h source .payment, reads_payload h source .keyRegistration,
      reads_payload h source .assetConfig, reads_payload h source .assetTransfer,
      reads_payload h source .assetFreeze⟩
    ⟨.inl (tagged.resolve_right id), Fields.present_of_complete present,
      present_payload h .payment, present_payload h .keyRegistration,
      present_payload h .assetConfig, present_payload h .assetTransfer,
      present_payload h .assetFreeze⟩

end Json

/-! ## Both ways -/

theorem decode_write {es : List (String × Value)} (small : a.Small)
    (h : Spelled wireSlots (a.fullRow t) es) :
    decode (Value.map es).write = (decodeValue rootKey (.map es) : Except Error Transaction) := by
  rw [decode, parse_write (fits small h), bind_ok]

theorem ofJson_eq {ms : List (String × Json)} {text : String}
    (h : Spelled jsonSlots (a.fullRow t) ms)
    (spells : Json.Spells (Json.record ms).tokens text.toList) :
    ofJson text = (Transaction.ofFlat (a.flatRow t)).mapError Json.Problem.refused := by
  have read : Transaction.form.read .text (Json.record ms).doc =
      (Transaction.ofFlat (a.flatRow t)).mapError .refused := by
    show Transaction.flat.read .text _ >>= _ = _
    rw [read_flat h, bind_ok]
  show (Transaction.form.parse text) = _
  rw [Json.Form.parse, Json.parse_of_spells spells]
  show Transaction.form.read .text _ >>= _ = _
  rw [read]
  cases (Transaction.ofFlat (a.flatRow t)).mapError Json.Problem.refused <;> rfl

/-- Values for all fields are set down with a type, once on the wire and once as JSON. If no field
of another type is set, both ways in make the same transaction. Otherwise both refuse a field of
another type that is set. -/
theorem paths_agree (a : Assignment) (small : a.Small) (t : TxnType)
    {es : List (String × Value)} (wire : Spelled wireSlots (a.fullRow t) es)
    {ms : List (String × Json)} (json : Spelled jsonSlots (a.fullRow t) ms)
    {text : String} (spells : Json.Spells (Json.record ms).tokens text.toList) :
    ((∀ key, ¬ a.SetsForeign t key) →
      decode (Value.map es).write = .ok (a.txn t) ∧ ofJson text = .ok (a.txn t)) ∧
    ((∃ key, a.SetsForeign t key) →
      (∃ key, a.SetsForeign t key ∧ (decode (Value.map es).write : Except Error Transaction) =
        .error (.fieldNotAllowed key t)) ∧
      ∃ key, a.SetsForeign t key ∧ (ofJson text : Except Json.Problem Transaction) =
        .error (.refused (.fieldNotAllowed key t))) := by
  -- Both ways are judged by what is set, and neither text nor bytes matter any more.
  rw [decode_write small wire, ofJson_eq json spells]
  constructor
  · intro own
    rw [ofFlat_ok own]
    exact ⟨decodeValue_ok wire own rootKey, rfl⟩
  · rintro ⟨key, set⟩
    refine ⟨decodeValue_error wire set rootKey, ?_⟩
    obtain ⟨key, set, refused⟩ := ofFlat_error set
    exact ⟨key, set, by rw [refused]; rfl⟩

/-- Seven units of a new asset, for the fee 5. -/
def newAsset : Assignment where
  header := { (default : Header) with fee := 5 }
  payment := default
  keyRegistration := default
  assetConfig := ⟨0, { (default : AssetParams) with total := 7 }⟩
  assetTransfer := default
  assetFreeze := default

/-- A map for the new asset, with two zeros that might have been left out. -/
def newAssetEntries (t : TxnType) : List (String × Value) :=
  [("apar", .map [("t", .uint 7), ("dc", .uint 0)]), ("amt", .uint 0), ("type", .str t.tag),
    ("fee", .uint 5)]

/-- A record for the new asset. -/
def newAssetMembers (t : TxnType) : List (String × Json) :=
  [("fee", .number 5), ("type", .text t.tag), ("asset_frozen", .bool false),
    ("params", .record [("url", .text ""), ("total", .number 7)])]

theorem newAsset_wire (t : TxnType) :
    Spelled wireSlots (newAsset.fullRow t) (newAssetEntries t) := by
  refine .of_holds ?_ ?_ ⟨.inl ⟨_, rfl, rfl⟩, ?_, ?_, ?_, ?_, ?_, ?_⟩
  · cases t <;> decide
  · cases t <;> decide
  · exact ⟨.inr ⟨rfl, rfl⟩, .inl ⟨_, rfl, rfl⟩, .inr ⟨rfl, rfl⟩, .inr ⟨rfl, rfl⟩, .inr ⟨rfl, rfl⟩,
      .inr ⟨rfl, rfl⟩, .inr ⟨rfl, rfl⟩, .inr ⟨rfl, rfl⟩, .inr ⟨rfl, rfl⟩, .inr ⟨rfl, rfl⟩⟩
  · exact ⟨.inr ⟨rfl, rfl⟩, .inl ⟨_, rfl, rfl⟩, .inr ⟨rfl, rfl⟩⟩
  · exact ⟨.inr ⟨rfl, rfl⟩, .inr ⟨rfl, rfl⟩, .inr ⟨rfl, rfl⟩, .inr ⟨rfl, rfl⟩, .inr ⟨rfl, rfl⟩⟩
  · refine ⟨.inr ⟨rfl, rfl⟩, .inl ⟨_, rfl, _, rfl, ?_⟩⟩
    refine .of_holds (by decide) (by decide) ?_
    exact ⟨.inl ⟨_, rfl, rfl⟩, .inl ⟨_, rfl, rfl⟩, .inr ⟨rfl, rfl⟩, .inr ⟨rfl, rfl⟩,
      .inr ⟨rfl, rfl⟩, .inr ⟨rfl, rfl⟩, .inr ⟨rfl, rfl⟩, .inr ⟨rfl, rfl⟩, .inr ⟨rfl, rfl⟩,
      .inr ⟨rfl, rfl⟩, .inr ⟨rfl, rfl⟩⟩
  · exact ⟨.inr ⟨rfl, rfl⟩, .inr ⟨rfl, rfl⟩, .inr ⟨rfl, rfl⟩, .inr ⟨rfl, rfl⟩, .inr ⟨rfl, rfl⟩⟩
  · exact ⟨.inr ⟨rfl, rfl⟩, .inr ⟨rfl, rfl⟩, .inr ⟨rfl, rfl⟩⟩

theorem newAsset_json (t : TxnType) :
    Spelled jsonSlots (newAsset.fullRow t) (newAssetMembers t) := by
  refine .of_holds ?_ ?_ ⟨.inl ⟨_, rfl, rfl⟩, ?_, ?_, ?_, ?_, ?_, ?_⟩
  · cases t <;> decide
  · cases t <;> decide
  · exact ⟨.inr ⟨rfl, rfl⟩, .inl ⟨_, rfl, rfl⟩, .inr ⟨rfl, rfl⟩, .inr ⟨rfl, rfl⟩, .inr ⟨rfl, rfl⟩,
      .inr ⟨rfl, rfl⟩, .inr ⟨rfl, rfl⟩, .inr ⟨rfl, rfl⟩, .inr ⟨rfl, rfl⟩, .inr ⟨rfl, rfl⟩⟩
  · exact ⟨.inr ⟨rfl, rfl⟩, .inr ⟨rfl, rfl⟩, .inr ⟨rfl, rfl⟩⟩
  · exact ⟨.inr ⟨rfl, rfl⟩, .inr ⟨rfl, rfl⟩, .inr ⟨rfl, rfl⟩, .inr ⟨rfl, rfl⟩, .inr ⟨rfl, rfl⟩⟩
  · refine ⟨.inr ⟨rfl, rfl⟩, .inl ⟨_, rfl, _, rfl, ?_⟩⟩
    refine .of_holds (by decide) (by decide) ?_
    exact ⟨.inl ⟨_, rfl, rfl⟩, .inr ⟨rfl, rfl⟩, .inr ⟨rfl, rfl⟩, .inr ⟨rfl, rfl⟩,
      .inr ⟨rfl, rfl⟩, .inl ⟨_, rfl, rfl⟩, .inr ⟨rfl, rfl⟩, .inr ⟨rfl, rfl⟩, .inr ⟨rfl, rfl⟩,
      .inr ⟨rfl, rfl⟩, .inr ⟨rfl, rfl⟩⟩
  · exact ⟨.inr ⟨rfl, rfl⟩, .inr ⟨rfl, rfl⟩, .inr ⟨rfl, rfl⟩, .inr ⟨rfl, rfl⟩, .inr ⟨rfl, rfl⟩⟩
  · exact ⟨.inr ⟨rfl, rfl⟩, .inr ⟨rfl, rfl⟩, .inl ⟨_, rfl, rfl⟩⟩

theorem newAsset_own (key : String) : ¬ newAsset.SetsForeign .assetConfig key := by
  rintro ⟨u, other, set⟩
  cases u with
  | assetConfig => exact other rfl
  | payment => exact set ⟨fun _ => rfl, fun _ => rfl, fun _ => rfl⟩
  | keyRegistration =>
    exact set ⟨fun _ => rfl, fun _ => rfl, fun _ => rfl, fun _ => rfl, fun _ => rfl⟩
  | assetTransfer =>
    exact set ⟨fun _ => rfl, fun _ => rfl, fun _ => rfl, fun _ => rfl, fun _ => rfl⟩
  | assetFreeze => exact set ⟨fun _ => rfl, fun _ => rfl, fun _ => rfl⟩

theorem newAsset_foreign : newAsset.SetsForeign .payment "apar" := by
  refine ⟨.assetConfig, by decide, fun zero => ?_⟩
  have total := congrArg AssetParams.total (Option.some.inj (zero.2 rfl))
  revert total
  decide

/-- The new asset is made both ways, and is no payment either way. -/
theorem paths_agree_newAsset :
    (decode (Value.map (newAssetEntries .assetConfig)).write = .ok (newAsset.txn .assetConfig) ∧
      ofJson (Json.record (newAssetMembers .assetConfig)).pretty =
        .ok (newAsset.txn .assetConfig)) ∧
    (∃ key, newAsset.SetsForeign .payment key ∧
      (decode (Value.map (newAssetEntries .payment)).write : Except Error Transaction) =
        .error (.fieldNotAllowed key .payment)) ∧
    ∃ key, newAsset.SetsForeign .payment key ∧
      (ofJson (Json.record (newAssetMembers .payment)).compact : Except Json.Problem Transaction) =
        .error (.refused (.fieldNotAllowed key .payment)) := by
  have small : newAsset.Small := ⟨⟨by decide, by decide⟩, ⟨by decide, by decide, by decide⟩⟩
  have made := paths_agree newAsset small .assetConfig (newAsset_wire _) (newAsset_json _)
    (Json.spells_pretty (printable (newAsset_json _)))
  have refused := paths_agree newAsset small .payment (newAsset_wire _) (newAsset_json _)
    (Json.spells_compact (printable (newAsset_json _)))
  exact ⟨made.1 newAsset_own, refused.2 ⟨_, newAsset_foreign⟩⟩

end Assignment

end LedgerCodec
