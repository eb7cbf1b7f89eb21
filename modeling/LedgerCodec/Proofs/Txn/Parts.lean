import LedgerCodec.Proofs.Txn.Reading
/-!
# Transactions as flat records

A transaction holds the record of one type only, but its encoding is that of a flat
record with the fields of all types, in which those of other types are not set. The
groups of fields may be pushed in any order: `Transaction.encode_eq_of_parts`. What
makes this work is that no key belongs to two groups.
-/

namespace LedgerCodec

open Wire

/-! ## The keys of payloads -/

/-- A value of fixed size in which no byte is zero. -/
def Fixed.ones (role : Role) : Fixed role :=
  ⟨⟨List.replicate role.size 1, List.length_replicate⟩⟩

namespace Payload

/-- A payload of each type in which every field is set. -/
def full : TxnType → Payload
  | .payment => .payment ⟨.ones _, 1, .ones _⟩
  | .keyRegistration => .keyRegistration ⟨.ones _, .ones _, 1, 1, 1⟩
  | .assetConfig => .assetConfig ⟨1, { (default : AssetParams) with total := 1 }⟩
  | .assetTransfer => .assetTransfer ⟨1, 1, .ones _, .ones _, .ones _⟩
  | .assetFreeze => .assetFreeze ⟨.ones _, 1, true⟩

theorem keys_full (t : TxnType) : ((full t).pushRecord Entries.empty).keys = keysOf t := by
  cases t <;> decide

theorem keys_pushRecord_sublist (p : Payload) :
    (p.pushRecord Entries.empty).keys.Sublist (keysOf p.type) := by
  rw [Entries.keys, pushRecord_list, keysOf_eq]
  exact Fields.keys_entries_sublist _ _

/-- The tables have the keys that payloads push, and no others. -/
theorem isPayloadKey_iff_pushed {key : String} :
    isPayloadKey key = true ↔ ∃ p : Payload, key ∈ (p.pushRecord Entries.empty).keys := by
  rw [isPayloadKey_iff]
  constructor
  · rintro ⟨t, known⟩
    refine ⟨full t, ?_⟩
    rw [keys_full]
    exact known
  · rintro ⟨p, pushed⟩
    exact ⟨p.type, p.keys_pushRecord_sublist.subset pushed⟩

theorem not_header_of_isPayloadKey {key : String} (known : isPayloadKey key = true) :
    key ∉ Record.keys Header ∧ key ≠ typeKey := by
  obtain ⟨t, hk⟩ := isPayloadKey_iff.mp known
  obtain ⟨-, -, apart⟩ := List.nodup_append.mp (Transaction.nodup_keysFor t)
  constructor
  · intro here
    exact apart key (List.mem_append_left _ here) key hk rfl
  · intro here
    exact apart key (List.mem_append_right _ (List.mem_singleton.mpr here)) key hk rfl

end Payload

/-! ## Parts -/

namespace Transaction

/-- The record of a type in a transaction. It is its payload, or nothing in it is set. -/
def record (t : Transaction) : TxnType → Payload
  | .payment => .payment t.payment
  | .keyRegistration => .keyRegistration t.keyRegistration
  | .assetConfig => .assetConfig t.assetConfig
  | .assetTransfer => .assetTransfer t.assetTransfer
  | .assetFreeze => .assetFreeze t.assetFreeze

theorem record_own (t : Transaction) : t.record t.type = t.payload := by
  obtain ⟨header, payload⟩ := t
  cases payload <;> rfl

theorem entries_record_other {t : Transaction} {u : TxnType} (other : u ≠ t.type) :
    (t.record u).entries = [] := by
  obtain ⟨header, payload⟩ := t
  cases payload <;> cases u <;> first | exact absurd rfl other | rfl

/-- A group of fields of the flat record. -/
inductive Part
  | header
  | tag
  /-- The fields of a type, which may be another one than the transaction's. -/
  | record (type : TxnType)
deriving DecidableEq

namespace Part

/-- All seven groups. -/
def all : List Part :=
  [header, tag] ++ TxnType.declared.map record

/-- Pushes the fields of a group. -/
def push (t : Transaction) : Part → Entries → Entries
  | header => Canonical.push t.header
  | tag => Entries.push Writer.text Payload.typeKey t.type.tag
  | record type => (t.record type).pushRecord

/-- What a group pushes. -/
def entries (t : Transaction) : Part → List (String × Value)
  | header => Fields.entries Record.fields (Record.row t.header)
  | tag => [(Payload.typeKey, .str t.type.tag)]
  | record type => (t.record type).entries

theorem push_list (t : Transaction) (part : Part) (es : Entries) :
    (part.push t es).list = es.list ++ part.entries t := by
  cases part with
  | header => exact Fields.push_list _ _ _
  | tag =>
    have some : t.type.tag.isEmpty = false := by
      cases t.type <;> decide
    simp only [push, Entries.push, Writer.text, some, entries]
    rfl
  | record type => exact Payload.pushRecord_list _ _

end Part

/-- The entries of a transaction whose groups of fields are pushed one after the other. -/
def pushParts (t : Transaction) (order : List Part) : Entries :=
  order.foldl (fun es part => part.push t es) Entries.empty

theorem foldl_push_list (t : Transaction) (order : List Part) (es : Entries) :
    (order.foldl (fun es part => part.push t es) es).list =
      es.list ++ order.flatMap (Part.entries t) := by
  induction order generalizing es with
  | nil => exact (List.append_nil _).symm
  | cons part order ih =>
    rw [List.foldl_cons, ih, Part.push_list, List.flatMap_cons, List.append_assoc]

/-- Of the records of several types, that of the transaction's own is left. -/
theorem flatMap_record {t : Transaction} {types : List TxnType} (distinct : types.Nodup)
    (here : t.type ∈ types) :
    types.flatMap (fun u => (t.record u).entries) = t.payload.entries := by
  induction types with
  | nil => cases here
  | cons u types ih =>
    obtain ⟨new, distinct⟩ := List.nodup_cons.mp distinct
    rw [List.flatMap_cons]
    by_cases own : u = t.type
    · subst own
      have rest : types.flatMap (fun u => (t.record u).entries) = [] := by
        refine List.flatMap_eq_nil_iff.mpr fun u hu => entries_record_other ?_
        rintro rfl
        exact new hu
      rw [rest, List.append_nil, record_own]
    · rw [entries_record_other own, List.nil_append]
      exact ih distinct ((List.mem_cons.mp here).resolve_left fun same => own same.symm)

theorem flatMap_entries_all (t : Transaction) : Part.all.flatMap (Part.entries t) = t.entries := by
  have declared : t.type ∈ TxnType.declared := by
    cases t.type <;> decide
  rw [Part.all, List.flatMap_append, List.flatMap_map]
  show _ ++ TxnType.declared.flatMap (fun u => (t.record u).entries) = _
  rw [flatMap_record (by decide) declared]
  rfl

/-- The groups of fields of a transaction, pushed in any order, make its encoding. No key is pushed
twice, and the keys of payloads are those that payloads push, apart from the other groups. -/
theorem encode_eq_of_parts (t : Transaction) {order : List Part} (all : order.Perm Part.all) :
    (t.pushParts order).keys.Nodup ∧ (t.pushParts order).toBytes = encode t ∧
      ∀ key, (Payload.isPayloadKey key = true ↔
          ∃ p : Payload, key ∈ (p.pushRecord Entries.empty).keys) ∧
        (Payload.isPayloadKey key = true →
          key ∉ Record.keys Header ∧ key ≠ Payload.typeKey) := by
  have list : (t.pushParts order).list = order.flatMap (Part.entries t) := by
    rw [pushParts, foldl_push_list]
    rfl
  have perm : (t.pushParts order).list.Perm t.entries := by
    rw [list, ← flatMap_entries_all]
    exact all.flatMap_right _
  have distinct : (t.pushParts order).keys.Nodup :=
    (perm.map Prod.fst).nodup_iff.mpr t.nodup_keys_entries
  refine ⟨distinct, ?_, fun key => ⟨Payload.isPayloadKey_iff_pushed, ?_⟩⟩
  · rw [encode, Entries.toBytes, Entries.toBytes, Entries.toValue, Entries.toValue, entriesOf_list,
      sortByKey_eq_of_perm distinct perm]
  · exact Payload.not_header_of_isPayloadKey

/-- A payment, pushed last group first. -/
theorem encode_eq_of_parts_reversed :
    let t : Transaction := ⟨{ (default : Header) with fee := 7 },
      .payment { (default : Payment) with amount := 5 }⟩
    Part.all.reverse.Perm Part.all ∧ (t.pushParts Part.all.reverse).toBytes = encode t := by
  intro t
  have perm : Part.all.reverse.Perm Part.all := List.reverse_perm _
  exact ⟨perm, (encode_eq_of_parts t perm).2.1⟩

end Transaction

end LedgerCodec
