import LedgerCodec.Proofs.Record.Faults
import LedgerCodec.Proofs.Txn.Zeros
/-!
# What the errors of decoding say

`Transaction.Fault` lists what can be wrong with the entries of a map that should be
a transaction: a field of the header, the tag or a field of the payload may have a
fault, a key may repeat, the type may be missing or unknown, and a key may be no
field at all or belong to another type. Each fault comes with its error, and there
are no other errors: `Transaction.fault_of_decode`.
-/

namespace LedgerCodec

open Wire Reader

namespace Transaction

/-- The numbers that are less than 64 bits wide. -/
def bounds : List (String × Nat) :=
  [("dc", UInt32.size)]

variable {key root : String} {v : Value} {e : Error} {es : List (String × Value)}

/-! ## Fields -/

theorem tells_header : (Record.fields (ρ := Header)).All (Field.Tells bounds Header.tags) :=
  ⟨⟨_, rfl, tells_fixed⟩, ⟨_, rfl, tells_uint⟩, ⟨_, rfl, tells_uint⟩, ⟨_, rfl, tells_uint⟩,
    ⟨_, rfl, tells_blob⟩, ⟨_, rfl, tells_text⟩, ⟨_, rfl, tells_fixed⟩, ⟨_, rfl, tells_fixed⟩,
    ⟨_, rfl, tells_fixed⟩, ⟨_, rfl, tells_fixed⟩⟩

theorem tells_params : (Record.fields (ρ := AssetParams)).All (Field.Tells bounds AssetParams.tags) :=
  ⟨⟨_, rfl, tells_uint⟩, ⟨_, rfl, tells_narrow (List.mem_singleton_self _)⟩, ⟨_, rfl, tells_bool⟩,
    ⟨_, rfl, tells_text⟩, ⟨_, rfl, tells_text⟩, ⟨_, rfl, tells_text⟩, ⟨_, rfl, tells_fixed⟩,
    ⟨_, rfl, tells_fixed⟩, ⟨_, rfl, tells_fixed⟩, ⟨_, rfl, tells_fixed⟩, ⟨_, rfl, tells_fixed⟩⟩

theorem tells_payload (type : TxnType) :
    (Payload.fieldsOf type).All (Field.Tells bounds (Payload.tagsOf type)) := by
  cases type with
  | payment => exact ⟨⟨_, rfl, tells_fixed⟩, ⟨_, rfl, tells_uint⟩, ⟨_, rfl, tells_fixed⟩⟩
  | keyRegistration =>
    exact ⟨⟨_, rfl, tells_fixed⟩, ⟨_, rfl, tells_fixed⟩, ⟨_, rfl, tells_uint⟩,
      ⟨_, rfl, tells_uint⟩, ⟨_, rfl, tells_uint⟩⟩
  | assetConfig =>
    exact ⟨⟨_, rfl, tells_uint⟩, ⟨_, rfl, Record.tells_nested AssetParams.tabled tells_params⟩⟩
  | assetTransfer =>
    exact ⟨⟨_, rfl, tells_uint⟩, ⟨_, rfl, tells_uint⟩, ⟨_, rfl, tells_fixed⟩,
      ⟨_, rfl, tells_fixed⟩, ⟨_, rfl, tells_fixed⟩⟩
  | assetFreeze => exact ⟨⟨_, rfl, tells_fixed⟩, ⟨_, rfl, tells_uint⟩, ⟨_, rfl, tells_bool⟩⟩

/-! ## Faults -/

/-- What is wrong with the entries of a map that should be a transaction. -/
inductive Fault (es : List (String × Value)) : Error → Prop
  | repeated {key : String} (twice : 2 ≤ (es.map Prod.fst).count key) :
      Fault es (.duplicateField key)
  | header {e : Error} (fault : Header.tags.Fault bounds es e) : Fault es e
  | tag {v : Value} {e : Error} (here : (Payload.typeKey, v) ∈ es)
      (fault : Content.text.Fault bounds Payload.typeKey v e) : Fault es e
  | missingType (nothing : ∀ v, (Payload.typeKey, v) ∈ es → v = .nil ∨ v = .str "") :
      Fault es .missingType
  | unknownType {s : String} (here : (Payload.typeKey, .str s) ∈ es) (some : s ≠ "")
      (unknown : ∀ t : TxnType, t.tag ≠ s) : Fault es (.unknownType s)
  | payload {t : TxnType} {e : Error} (type : (Payload.typeKey, .str t.tag) ∈ es)
      (fault : (Payload.tagsOf t).Fault bounds es e) : Fault es e
  | unknownField {key : String} (here : key ∈ es.map Prod.fst) (other : key ∉ tags.map Prod.fst)
      (noTag : key ≠ Payload.typeKey) : Fault es (.unknownField key)
  | fieldNotAllowed {t u : TxnType} {key : String} {v : Value}
      (type : (Payload.typeKey, .str t.tag) ∈ es) (here : (key, v) ∈ es) (nonzero : v.isZero = false)
      (belongs : key ∈ Payload.keysOf u) (other : u ≠ t) : Fault es (.fieldNotAllowed key t)

theorem missing_of_ofHeld (distinct : (es.map Prod.fst).Nodup)
    (h : text.ofHeld key ((⟨es⟩ : Pending).find? key) = .ok "") :
    ∀ v, (key, v) ∈ es → v = .nil ∨ v = .str "" := by
  intro v here
  have found : es.lookup key = some v := (lookup_eq_some distinct).mpr here
  by_cases nothing : v = .nil
  · exact .inl nothing
  · rw [Pending.find?_eq_some.mpr ⟨found, nothing⟩] at h
    exact .inr (Kind.text_read_ok h)

theorem mem_of_ofHeld {s : String} (some : s ≠ "")
    (h : text.ofHeld key ((⟨es⟩ : Pending).find? key) = .ok s) : (key, .str s) ∈ es := by
  cases held : (⟨es⟩ : Pending).find? key with
  | none =>
    rw [held] at h
    exact absurd (Except.ok.inj h).symm some
  | some v =>
    rw [held] at h
    rw [← Kind.text_read_ok h]
    exact mem_of_lookup (Pending.find?_eq_some.mp held).1

/-- The tag is refused if there is none, or if no type has it. -/
theorem fault_of_parse (distinct : (es.map Prod.fst).Nodup) {s : String}
    (read : text.ofHeld Payload.typeKey ((⟨es⟩ : Pending).find? Payload.typeKey) = .ok s)
    (h : TxnType.parse s = .error e) : Fault es e := by
  rw [TxnType.parse] at h
  split at h
  · rename_i empty
    cases h
    rw [empty] at read
    exact .missingType (missing_of_ofHeld distinct read)
  · rename_i some
    split at h
    · cases h
    · rename_i unknown
      cases h
      refine .unknownType (mem_of_ofHeld some read) some fun t tag => ?_
      rw [← tag, TxnType.ofTag?_tag] at unknown
      cases unknown

theorem fault_of_readBy (distinct : (es.map Prod.fst).Nodup)
    (h : (readBy fun k => (⟨es⟩ : Pending).find? k) = .error e) : Fault es e := by
  rcases bind_eq_error.mp h with h | ⟨header, -, h⟩
  · exact .header (Fields.fault_of_readBy tells_header h)
  rcases bind_eq_error.mp h with h | ⟨s, read, h⟩
  · obtain ⟨v, here, fault⟩ := tells_text.fault_of_ofHeld h
    exact .tag here fault
  rcases bind_eq_error.mp h with h | ⟨t, parsed, h⟩
  · exact fault_of_parse distinct read h
  rcases bind_eq_error.mp h with refused | ⟨payload, -, h⟩
  · obtain rfl := TxnType.parse_eq_ok.mp parsed
    have tag : (Payload.typeKey, .str t.tag) ∈ es := by
      refine mem_of_ofHeld ?_ read
      cases t <;> decide
    exact .payload tag (Fields.fault_of_readBy (tells_payload t) refused)
  · cases h

/-- Entries of other keys are refused if their keys are of no type, or if they are not zero. -/
theorem of_checkForeign_error {t : TxnType} (h : checkForeign t es = .error e) :
    ∃ e' ∈ es, (Payload.isPayloadKey e'.1 = false ∧ e = .unknownField e'.1) ∨
      (Payload.isPayloadKey e'.1 = true ∧ e'.2.isZero = false ∧ e = .fieldNotAllowed e'.1 t) := by
  induction es with
  | nil => cases h
  | cons e' es ih =>
    obtain ⟨key, v⟩ := e'
    rw [checkForeign] at h
    split at h
    · rename_i unknown
      cases h
      rw [Bool.not_eq_true'] at unknown
      exact ⟨_, List.mem_cons_self, .inl ⟨unknown, rfl⟩⟩
    · rename_i known
      rw [Bool.not_eq_true', Bool.not_eq_false] at known
      split at h
      · rename_i nonzero
        cases h
        rw [Bool.not_eq_true'] at nonzero
        exact ⟨_, List.mem_cons_self, .inr ⟨known, nonzero, rfl⟩⟩
      · obtain ⟨e', here, fault⟩ := ih h
        exact ⟨e', List.mem_cons_of_mem _ here, fault⟩

theorem fault_of_foreign {t : TxnType} (type : (Payload.typeKey, .str t.tag) ∈ es)
    (h : checkForeign t (foreign t es) = .error e) : Fault es e := by
  obtain ⟨⟨key, v⟩, he, fault⟩ := of_checkForeign_error h
  obtain ⟨here, other⟩ := mem_foreign.mp he
  rw [mem_keysFor, not_or, not_or] at other
  obtain ⟨noHeader, noTag, noPayload⟩ := other
  rcases fault with ⟨unknown, rfl⟩ | ⟨known, nonzero, rfl⟩
  · refine .unknownField (List.mem_map_of_mem here) (fun known => ?_) noTag
    rw [isPayloadKey_of_tag known noHeader] at unknown
    cases unknown
  · obtain ⟨u, belongs⟩ := Payload.isPayloadKey_iff.mp known
    refine .fieldNotAllowed type here nonzero belongs ?_
    rintro rfl
    exact noPayload belongs

/-- A map is refused for a fault. -/
theorem fault_of_decodeValue (h : (decodeValue root (.map es) : Except Error Transaction) = .error e) :
    Fault es e := by
  rcases nodup_or_repeated es with distinct | ⟨k, twice, repeated⟩
  · rw [decodeValue_map root distinct] at h
    rcases bind_eq_error.mp h with h | ⟨t, read, h⟩
    · exact fault_of_readBy distinct h
    rcases bind_eq_error.mp h with h | ⟨_, -, h⟩
    · have tag := (readBy_eq_ok.mp read).2.1
      exact fault_of_foreign (mem_of_lookup (Pending.find?_eq_some.mp tag).1) h
    · cases h
  · rw [decodeValue, repeated] at h
    cases h
    exact .repeated twice

/-- Bytes that hold a value are refused because it is no map, or for a fault of its entries. -/
theorem fault_of_decode {bs : Bytes} (parsed : Wire.parse bs = .ok v)
    (refused : (decode bs : Except Error Transaction) = .error e) :
    (v ≠ .nil ∧ (∀ es, v ≠ .map es) ∧ e = .unexpectedType rootKey "map") ∨
      ∃ es, (v = .map es ∨ v = .nil ∧ es = []) ∧ Fault es e := by
  rw [decode, parsed, bind_ok] at refused
  cases v with
  | nil =>
    -- Nothing is read as the map without entries is.
    have refused : (decodeValue rootKey (.map []) : Except Error Transaction) = .error e := refused
    exact .inr ⟨[], .inr ⟨rfl, rfl⟩, fault_of_decodeValue refused⟩
  | map es => exact .inr ⟨es, .inl rfl, fault_of_decodeValue refused⟩
  | _ => cases refused; exact .inl ⟨nofun, nofun, rfl⟩

/-- An asset whose units have 2^32 digits after the point, which is one more than there can be. -/
def preciseAsset : Bytes :=
  [0x82, 0xa4, 0x74, 0x79, 0x70, 0x65, 0xa4, 0x61, 0x63, 0x66, 0x67, 0xa4, 0x61, 0x70, 0x61, 0x72,
   0x81, 0xa2, 0x64, 0x63, 0xcf, 0, 0, 0, 1, 0, 0, 0, 0]

theorem fault_of_decode_preciseAsset :
    let es : List (String × Value) :=
      [("type", .str "acfg"), ("apar", .map [("dc", .uint 4294967296)])]
    Wire.parse preciseAsset = .ok (.map es) ∧
      (decode preciseAsset : Except Error Transaction) = .error (.outOfRange "dc" 4294967296) ∧
      Fault es (.outOfRange "dc" 4294967296) := by
  intro es
  have parsed : Wire.parse preciseAsset = .ok (.map es) := by rfl
  have refused : (decode preciseAsset : Except Error Transaction) =
      .error (.outOfRange "dc" 4294967296) := by decide
  refine ⟨parsed, refused, ?_⟩
  rcases fault_of_decode parsed refused with ⟨-, noMap, -⟩ | ⟨es', same | ⟨nothing, -⟩, fault⟩
  · exact absurd rfl (noMap es)
  · cases same
    exact fault
  · cases nothing

end Transaction

end LedgerCodec
