import LedgerCodec.Proofs.Txn.Fields
/-!
# Reading transactions

A transaction is read from what each key of its header, its tag and its payload
holds (`readBy_eq_ok`), provided that all other entries belong to other types and
are zero (`decodeValue_eq_ok`). The five payloads are rows of five layouts, and
one argument about `Payload.fieldsOf` serves all of them. Transactions follow the
laws of records: `Transaction.lawful`.
-/

namespace LedgerCodec

open Wire

/-! ## Tags -/

namespace TxnType

theorem parse_eq_ok {s : String} {t : TxnType} : parse s = .ok t ↔ s = t.tag := by
  constructor
  · intro h
    unfold parse at h
    split at h
    · cases h
    · split at h
      · rename_i found
        cases h
        exact (tag_of_ofTag? found).symm
      · cases h
  · rintro rfl
    cases t <;> rfl

end TxnType

/-! ## Payloads as rows -/

namespace Payload

/-- The rows of the record of a type. -/
def Row : TxnType → Type
  | .payment => Record.Row Payment
  | .keyRegistration => Record.Row KeyRegistration
  | .assetConfig => Record.Row AssetConfig
  | .assetTransfer => Record.Row AssetTransfer
  | .assetFreeze => Record.Row AssetFreeze

/-- The fields of the record of a type. -/
def fieldsOf : (t : TxnType) → Fields (Row t)
  | .payment => Record.fields (ρ := Payment)
  | .keyRegistration => Record.fields (ρ := KeyRegistration)
  | .assetConfig => Record.fields (ρ := AssetConfig)
  | .assetTransfer => Record.fields (ρ := AssetTransfer)
  | .assetFreeze => Record.fields (ρ := AssetFreeze)

/-- The row of a payload. -/
def row : (p : Payload) → Row p.type
  | payment p => Record.row p
  | keyRegistration k => Record.row k
  | assetConfig c => Record.row c
  | assetTransfer t => Record.row t
  | assetFreeze f => Record.row f

/-- The payload of a row. -/
def ofRow : (t : TxnType) → Row t → Payload
  | .payment, r => payment (Record.ofRow r)
  | .keyRegistration, r => keyRegistration (Record.ofRow r)
  | .assetConfig, r => assetConfig (Record.ofRow r)
  | .assetTransfer, r => assetTransfer (Record.ofRow r)
  | .assetFreeze, r => assetFreeze (Record.ofRow r)

@[simp]
theorem type_ofRow (t : TxnType) (r : Row t) : (ofRow t r).type = t := by
  cases t <;> rfl

@[simp]
theorem ofRow_row (p : Payload) : ofRow p.type p.row = p := by
  cases p <;> rfl

theorem keysOf_eq (t : TxnType) : keysOf t = (fieldsOf t).keys := by
  cases t <;> rfl

theorem lawful_fieldsOf (levels : Nat) (t : TxnType) : (fieldsOf t).Lawful (levels + 1) := by
  cases t with
  | payment => exact Payment.lawful_fields
  | keyRegistration => exact KeyRegistration.lawful_fields
  | assetConfig => exact AssetConfig.lawful_fields
  | assetTransfer => exact AssetTransfer.lawful_fields
  | assetFreeze => exact AssetFreeze.lawful_fields

theorem isPayloadKey_iff {key : String} : isPayloadKey key = true ↔ ∃ t, key ∈ keysOf t := by
  have declared (t : TxnType) : t ∈ TxnType.declared := by
    cases t <;> decide
  simp [isPayloadKey, declared]

/-- The entries of a payload, without the tag. -/
def entries (p : Payload) : List (String × Value) :=
  (fieldsOf p.type).entries p.row

theorem pushRecord_list (p : Payload) (es : Entries) :
    (p.pushRecord es).list = es.list ++ p.entries := by
  cases p <;> exact Fields.push_list _ _ _

/-- A payload depends only on what the keys of its type hold. -/
theorem read_eq (t : TxnType) (p : Pending) :
    read t p = ((fieldsOf t).readBy fun key => p.find? key).map fun r =>
      (ofRow t r, p.without (keysOf t)) := by
  have rows : read t p = ((fieldsOf t).read p).map fun x => (ofRow t x.1, x.2) := by
    cases t <;> exact map_map _ _ _
  rw [rows, Fields.read_eq _ (lawful_fieldsOf 0 t).distinct, map_map, keysOf_eq]

end Payload

/-! ## Transactions -/

namespace Transaction

/-- The keys of transactions of a type. -/
def keysFor (t : TxnType) : List String :=
  Record.keys Header ++ [Payload.typeKey] ++ Payload.keysOf t

theorem mem_keysFor {t : TxnType} {key : String} : key ∈ keysFor t ↔
    key ∈ Record.keys Header ∨ key = Payload.typeKey ∨ key ∈ Payload.keysOf t := by
  rw [keysFor, List.mem_append, List.mem_append, List.mem_singleton, or_assoc]

theorem nodup_keysFor (t : TxnType) : (keysFor t).Nodup := by
  cases t <;> decide

/-- No key belongs to two types. -/
theorem not_mem_keysFor {t u : TxnType} (h : u ≠ t) {key : String} (hk : key ∈ Payload.keysOf u) :
    key ∉ keysFor t := by
  have apart : ∀ key ∈ Payload.keysOf u, key ∉ keysFor t := by
    cases u <;> cases t <;> first | exact absurd rfl h | decide
  exact apart key hk

/-- The entries of a transaction: those of the header, the tag, those of the payload. -/
def entries (t : Transaction) : List (String × Value) :=
  Fields.entries Record.fields (Record.row t.header) ++
    [(Payload.typeKey, .str t.type.tag)] ++ t.payload.entries

theorem mem_entries {t : Transaction} {e : String × Value} : e ∈ t.entries ↔
    e ∈ Fields.entries Record.fields (Record.row t.header) ∨
      e = (Payload.typeKey, .str t.type.tag) ∨ e ∈ t.payload.entries := by
  rw [entries, List.mem_append, List.mem_append, List.mem_singleton, or_assoc]

theorem entriesOf_list (t : Transaction) : (entriesOf t).list = t.entries := by
  have tag : t.payload.type.tag.isEmpty = false := by
    cases t.payload.type <;> decide
  show (t.payload.pushRecord ((Canonical.push t.header Entries.empty).push Writer.text
    Payload.typeKey t.payload.type.tag)).list = _
  rw [Payload.pushRecord_list, Entries.push]
  simp only [Writer.text, tag]
  show (entriesOf t.header).list ++ [_] ++ _ = _
  rw [Record.entriesOf_list]
  rfl

/-- The transaction that keys give which hold what `held` says. -/
def readBy (held : String → Option Value) : Except Error Transaction := do
  let header ← Fields.readBy Record.fields held
  let tag ← Reader.text.ofHeld Payload.typeKey (held Payload.typeKey)
  let type ← TxnType.parse tag
  let payload ← (Payload.fieldsOf type).readBy held
  .ok ⟨Record.ofRow header, Payload.ofRow type payload⟩

/-- A transaction depends only on what its keys hold, and what is left must not matter. -/
theorem readFields_eq (p : Pending) : readFields p =
    (readBy fun key => p.find? key) >>= fun t =>
      checkForeign t.type (p.without (keysFor t.type)).entries >>= fun _ =>
        .ok (t, Pending.empty) := by
  -- Every reader takes out its own keys only, so the next one finds its keys as they were.
  have apart (t : TxnType) (key : String) (h : key ∈ (Payload.fieldsOf t).keys) :
      (p.without (Record.keys Header ++ [Payload.typeKey])).find? key = p.find? key := by
    rw [← Payload.keysOf_eq] at h
    exact Pending.find?_without fun hk =>
      (List.nodup_append.mp (nodup_keysFor t)).2.2 key hk key h rfl
  have tag : (p.without (Record.keys Header)).find? Payload.typeKey = p.find? Payload.typeKey :=
    Pending.find?_without (by decide)
  rw [readFields, readBy, Record.read_eq (@Header.lawful_fields 0).distinct]
  cases Fields.readBy (Record.fields (ρ := Header)) fun key => p.find? key with
  | error e => rfl
  | ok h =>
    simp only [Except.map, bind_ok]
    rw [Pending.read_eq, tag, Pending.without_without]
    cases Reader.text.ofHeld Payload.typeKey (p.find? Payload.typeKey) with
    | error e => rfl
    | ok s =>
      simp only [bind_ok]
      cases TxnType.parse s with
      | error e => rfl
      | ok t =>
        simp only [bind_ok]
        rw [Payload.read_eq, Fields.readBy_congr (apart t), Pending.without_without]
        cases (Payload.fieldsOf t).readBy fun key => p.find? key with
        | error e => rfl
        | ok r =>
          simp only [Except.map, bind_ok, type, Payload.type_ofRow]
          rfl

theorem held_of_tag {key : String} {v : Option Value} {t : TxnType}
    (h : Reader.text.ofHeld key v = .ok t.tag) : v = some (.str t.tag) := by
  cases v with
  | none =>
    -- Nothing reads as the empty text, which is no tag.
    have : "" = t.tag := Except.ok.inj h
    revert this
    cases t <;> decide
  | some v => exact congrArg some (Kind.text_read_ok h)

/-- The transaction that keys give is the one whose fields, tag and payload they give. -/
theorem readBy_eq_ok {held : String → Option Value} {t : Transaction} : readBy held = .ok t ↔
    Fields.readBy Record.fields held = .ok (Record.row t.header) ∧
      held Payload.typeKey = some (.str t.type.tag) ∧
      (Payload.fieldsOf t.payload.type).readBy held = .ok t.payload.row := by
  constructor
  · intro h
    obtain ⟨header, hheader, h⟩ := bind_eq_ok.mp h
    obtain ⟨tag, htag, h⟩ := bind_eq_ok.mp h
    obtain ⟨type, htype, h⟩ := bind_eq_ok.mp h
    obtain ⟨payload, hpayload, h⟩ := bind_eq_ok.mp h
    cases h
    rw [TxnType.parse_eq_ok] at htype
    subst htype
    refine ⟨by rw [hheader, Record.row_ofRow], ?_, ?_⟩
    · simp only [Transaction.type, Payload.type_ofRow]
      exact held_of_tag htag
    · cases type <;> exact hpayload
  · rintro ⟨hheader, htag, hpayload⟩
    have tag : Reader.text.ofHeld Payload.typeKey (held Payload.typeKey) = .ok t.type.tag := by
      rw [htag]
      rfl
    have parsed : TxnType.parse t.type.tag = .ok t.payload.type := TxnType.parse_eq_ok.mpr rfl
    rw [readBy, hheader, tag, bind_ok, bind_ok, parsed, bind_ok, hpayload, bind_ok,
      Record.ofRow_row, Payload.ofRow_row]

theorem checkForeign_eq_ok {t : TxnType} {es : List (String × Value)} :
    checkForeign t es = .ok () ↔
      ∀ e ∈ es, Payload.isPayloadKey e.1 = true ∧ e.2.isZero = true := by
  induction es with
  | nil => simp [checkForeign]
  | cons e es ih =>
    obtain ⟨key, v⟩ := e
    rw [checkForeign, List.forall_mem_cons, ← ih]
    split
    · simp_all
    · split <;> simp_all

theorem checkForeign_eq_error {t : TxnType} {es : List (String × Value)}
    (known : ∀ e ∈ es, Payload.isPayloadKey e.1 = true) (some : ∃ e ∈ es, e.2.isZero = false) :
    ∃ e ∈ es, e.2.isZero = false ∧ checkForeign t es = .error (.fieldNotAllowed e.1 t) := by
  induction es with
  | nil =>
    obtain ⟨e, he, -⟩ := some
    cases he
  | cons e es ih =>
    rw [List.forall_mem_cons] at known
    by_cases zero : e.2.isZero = true
    -- A zero is passed over, so the entry that is refused comes later.
    · have later : ∃ e' ∈ es, e'.2.isZero = false := by
        obtain ⟨e', he', nonzero⟩ := some
        rcases List.mem_cons.mp he' with rfl | he'
        · rw [zero] at nonzero
          cases nonzero
        · exact ⟨e', he', nonzero⟩
      obtain ⟨e', he', nonzero, refused⟩ := ih known.2 later
      exact ⟨e', List.mem_cons_of_mem _ he', nonzero, by simp [checkForeign, known.1, zero, refused]⟩
    · rw [Bool.not_eq_true] at zero
      exact ⟨e, List.mem_cons_self, zero, by simp [checkForeign, known.1, zero]⟩

/-- The entries of a map that transactions of a type do not have, in the order of their keys. -/
def foreign (t : TxnType) (es : List (String × Value)) : List (String × Value) :=
  (Pending.without (keysFor t) ⟨sortByKey es⟩).entries

theorem mem_foreign {t : TxnType} {es : List (String × Value)} {e : String × Value} :
    e ∈ foreign t es ↔ e ∈ es ∧ e.1 ∉ keysFor t := by
  rw [foreign, Pending.mem_without, (sortByKey_perm es).mem_iff]

/-- A transaction is read from a map by what its keys hold, and then the other entries must not
matter. -/
theorem decodeValue_map (key : String) {es : List (String × Value)}
    (distinct : (es.map Prod.fst).Nodup) : (decodeValue key (.map es) : Except Error Transaction) =
      (readBy fun k => (⟨es⟩ : Pending).find? k) >>= fun t =>
        checkForeign t.type (foreign t.type es) >>= fun _ => .ok t := by
  have held : (fun k => (⟨sortByKey es⟩ : Pending).find? k) = fun k => (⟨es⟩ : Pending).find? k :=
    funext fun k => Pending.find?_sortByKey distinct k
  rw [decodeValue, Pending.ofValue_map key distinct, bind_ok]
  show (readFields _ >>= _) = _
  rw [readFields_eq, held]
  cases readBy fun k => (⟨es⟩ : Pending).find? k with
  | error e => rfl
  | ok t =>
    simp only [bind_ok, foreign]
    cases checkForeign t.type (Pending.without (keysFor t.type) ⟨sortByKey es⟩).entries <;> rfl

/-- A transaction is read from a map if its keys hold it and all other entries belong to other
types and are zero. -/
theorem decodeValue_eq_ok {key : String} {es : List (String × Value)} {t : Transaction}
    (distinct : (es.map Prod.fst).Nodup) : decodeValue key (.map es) = .ok t ↔
      (readBy fun k => (⟨es⟩ : Pending).find? k) = .ok t ∧
        ∀ e ∈ es, e.1 ∉ keysFor t.type → Payload.isPayloadKey e.1 = true ∧ e.2.isZero = true := by
  have left (t : Transaction) : checkForeign t.type (foreign t.type es) = .ok () ↔
      ∀ e ∈ es, e.1 ∉ keysFor t.type →
        Payload.isPayloadKey e.1 = true ∧ e.2.isZero = true := by
    rw [checkForeign_eq_ok]
    simp only [mem_foreign, and_imp]
  rw [decodeValue_map key distinct, bind_eq_ok]
  constructor
  · rintro ⟨t', ht, h⟩
    obtain ⟨_, zero, h⟩ := bind_eq_ok.mp h
    cases h
    exact ⟨ht, (left t).mp zero⟩
  · rintro ⟨ht, zero⟩
    exact ⟨t, ht, by rw [(left t).mpr zero, bind_ok]⟩

/-- What a transaction was read from. -/
theorem of_decodeValue {key : String} {v : Value} {t : Transaction} (h : decodeValue key v = .ok t) :
    ∃ es, v = .map es ∧ (es.map Prod.fst).Nodup ∧
      (readBy fun k => (⟨es⟩ : Pending).find? k) = .ok t ∧
        ∀ e ∈ es, e.1 ∉ keysFor t.type → Payload.isPayloadKey e.1 = true ∧ e.2.isZero = true := by
  obtain ⟨p, hp, -⟩ := bind_eq_ok.mp h
  rcases Pending.ofValue_ok hp with ⟨rfl, -⟩ | ⟨es, rfl, distinct, -⟩
  · -- Nothing reads as the map without entries, and that has no tag.
    have none : (decodeValue key (.map []) : Except Error Transaction) = .ok t := h
    rw [@decodeValue_eq_ok _ [] _ .nil, readBy_eq_ok] at none
    exact nomatch none.1.2.1
  · exact ⟨es, rfl, distinct, (decodeValue_eq_ok distinct).mp h⟩

/-! ## Transactions are lawful -/

theorem keys_entries_sublist (t : Transaction) :
    (t.entries.map Prod.fst).Sublist (keysFor t.type) := by
  rw [entries, keysFor, List.map_append, List.map_append, Payload.keysOf_eq]
  exact ((Fields.keys_entries_sublist _ _).append (.refl _)).append (Fields.keys_entries_sublist _ _)

theorem nodup_keys_entries (t : Transaction) : (t.entries.map Prod.fst).Nodup :=
  (nodup_keysFor t.type).sublist t.keys_entries_sublist

theorem key_mem_of_mem_entries {t : Transaction} {e : String × Value} (h : e ∈ t.entries) :
    e.1 ∈ keysFor t.type :=
  t.keys_entries_sublist.subset (List.mem_map.mpr ⟨e, h, rfl⟩)

theorem entries_ne_nil (t : Transaction) : ∀ e ∈ t.entries, e.2 ≠ .nil := by
  intro e he
  rcases mem_entries.mp he with he | rfl | he
  · exact Fields.entries_ne_nil (@Header.lawful_fields 0).kinds _ e he
  · exact nofun
  · exact Fields.entries_ne_nil (Payload.lawful_fieldsOf 0 _).kinds _ e he

variable {levels : Nat}

/-- The map of a transaction fits if the entries of the header and of the payload do. -/
theorem fits_toValue {t : Transaction}
    (header : ∀ e ∈ Fields.entries Record.fields (Record.row t.header), Fits levels e.2)
    (payload : ∀ e ∈ t.payload.entries, Fits levels e.2) :
    Fits (levels + 1) (entriesOf t).toValue := by
  have perm := sortByKey_perm t.entries
  have keys : (keysFor t.type).length < lengthBound ∧
      ∀ key ∈ keysFor t.type, (utf8 key).length < lengthBound := by
    cases t.type <;> decide
  show Fits (levels + 1) (.map (sortByKey (entriesOf t).list))
  rw [entriesOf_list]
  refine .map ?_ (fun e he => ?_) fun e he => ?_
  · rw [perm.length_eq]
    refine Nat.lt_of_le_of_lt ?_ keys.1
    rw [← List.length_map]
    exact t.keys_entries_sublist.length_le
  · exact keys.2 e.1 (key_mem_of_mem_entries (perm.mem_iff.mp he))
  · rcases mem_entries.mp (perm.mem_iff.mp he) with he | rfl | he
    · exact header e he
    · exact .str (by cases t.type <;> decide)
    · exact payload e he

/-- A transaction is read back from keys that hold its entries. -/
theorem readBy_entries (t : Transaction) : readBy (fun k => t.entries.lookup k) = .ok t := by
  obtain ⟨distinct, -, apartPayload⟩ := List.nodup_append.mp (nodup_keysFor t.type)
  have apartTag := (List.nodup_append.mp distinct).2.2
  have payloadKey {key : String} (h : key ∈ t.payload.entries.map Prod.fst) :
      key ∈ Payload.keysOf t.type := by
    rw [type, Payload.keysOf_eq]
    exact (Fields.keys_entries_sublist _ _).subset h
  -- Header, tag and payload look for their keys in the same entries. These are three lists, and no
  -- key is in two of them.
  rw [readBy_eq_ok]
  refine ⟨?_, (lookup_eq_some t.nodup_keys_entries).mpr (by simp [mem_entries]), ?_⟩
  · have l := @Header.lawful_fields 0
    refine Fields.readBy_entries l.distinct l.kinds _ fun key hk => ?_
    rw [entries, lookup_append_left, lookup_append_left]
    · exact fun h => apartTag key hk key h rfl
    · exact fun h => apartPayload key (List.mem_append_left _ hk) key (payloadKey h) rfl
  · have l := Payload.lawful_fieldsOf 0 t.payload.type
    refine Fields.readBy_entries l.distinct l.kinds _ fun key hk => ?_
    rw [← Payload.keysOf_eq] at hk
    rw [entries, lookup_append_right, Payload.entries]
    intro h
    rw [List.map_append] at h
    refine apartPayload key ?_ key hk rfl
    exact ((Fields.keys_entries_sublist _ _).append (.refl _)).subset h

theorem lawful : Canonical.Lawful Transaction (levels + 2) where
  decodeValue_toValue key t := by
    have sorted : ((sortByKey t.entries).map Prod.fst).Nodup :=
      (ascending_sortByKey t.nodup_keys_entries).nodup
    have held : (fun k => (⟨sortByKey t.entries⟩ : Pending).find? k) = fun k => t.entries.lookup k :=
      funext fun k => by
        rw [Pending.find?_sortByKey t.nodup_keys_entries, Pending.find?_of_ne_nil t.entries_ne_nil]
    show decodeValue key (.map (sortByKey (entriesOf t).list)) = _
    rw [entriesOf_list, decodeValue_eq_ok sorted, held]
    refine ⟨t.readBy_entries, fun e he foreign => absurd ?_ foreign⟩
    exact key_mem_of_mem_entries ((sortByKey_perm _).mem_iff.mp he)
  decodeValue_empty key t := by
    have tagged : (entriesOf t).isEmpty = false := by
      rw [Entries.isEmpty, entriesOf_list]
      simp [entries]
    -- The empty map is no transaction, since it has no tag, and no transaction is empty.
    rw [tagged, @decodeValue_eq_ok _ [] _ .nil, readBy_eq_ok]
    constructor
    · intro h
      cases h.1.2.1
    · intro h
      cases h
  fits_of_decodeValue {n key v t} fits h := by
    obtain ⟨es, rfl, -, read, -⟩ := of_decodeValue h
    obtain ⟨header, -, payload⟩ := readBy_eq_ok.mp read
    cases fits with
    | @map n _ short keys inside =>
      have held {key : String} {v : Value} (h : (⟨es⟩ : Pending).find? key = some v) : Fits n v :=
        Pending.find?_fits inside h
      exact fits_toValue (Fields.fits_of_readBy Header.lawful_fields.kinds held header)
        (Fields.fits_of_readBy (Payload.lawful_fieldsOf levels _).kinds held payload)

end Transaction

end LedgerCodec
