import LedgerCodec.Proofs.Record.Exact
import LedgerCodec.Proofs.Txn.RoundTrip
/-!
# Which bytes are canonical

Decoding is lenient about the order of keys, the width of headers, texts in place
of blobs, zeros that are written out and zeros of other types. `IsCanonical` rules
all of this out, and nothing else: the bytes in this form are those that
a decoded transaction is encoded as.
-/

namespace LedgerCodec

open Wire

/-! ## The form -/

/-- The keys under which a transaction holds byte strings. -/
def blobKeys : List String :=
  ["snd", "note", "gh", "grp", "lx", "rekey", "rcv", "close", "votekey", "selkey", "asnd", "arcv",
   "aclose", "fadd"]

/-- The keys under which the parameters of an asset hold byte strings. -/
def paramBlobKeys : List String :=
  ["am", "m", "r", "f", "c"]

/-- The key of the note, which is written even if all its bytes are zero. -/
def noteKey : String := "note"

/-- The key of the parameters of an asset. -/
def paramsKey : String := "apar"

/-- What a key holds is in canonical form, but for the order of entries further inside. -/
structure ValueForm (blobs : List String) (key : String) (v : Value) : Prop where
  /-- Byte strings are not held as texts. -/
  blob : key ∈ blobs → ∃ bs, v = .bin bs
  /-- Zeros are left out, but for a note that has bytes. -/
  nonzero : v.isZero = true → key = noteKey ∧ ∃ bs, v = .bin bs ∧ bs ≠ []

/-- The entries of one map are in canonical form. -/
structure EntriesForm (blobs : List String) (es : List (String × Value)) : Prop where
  ascending : Ascending es
  values : ∀ e ∈ es, ValueForm blobs e.1 e.2

/-- The bytes are those of a map as the writers write it, and the map and the one of asset
parameters inside it are in canonical form. -/
def IsCanonical (bs : Bytes) : Prop :=
  ∃ es, parse bs = .ok (.map es) ∧ (Value.map es).write = bs ∧ EntriesForm blobKeys es ∧
    ∀ params, (paramsKey, .map params) ∈ es → EntriesForm paramBlobKeys params

/-! ## Values in canonical form -/

theorem ValueForm.ne_nil {blobs : List String} {key : String} {v : Value}
    (form : ValueForm blobs key v) : v ≠ .nil := by
  rintro rfl
  obtain ⟨-, bs, hbs, -⟩ := form.nonzero rfl
  cases hbs

theorem valueForm_iff_nonzero {blobs : List String} {key : String}
    (other : key ∉ blobs ∧ key ≠ noteKey) (v : Value) :
    ValueForm blobs key v ↔ v.isZero = false := by
  refine ⟨fun form => Bool.eq_false_iff.mpr fun zero => other.2 (form.nonzero zero).1, fun some => ?_⟩
  refine ⟨fun h => absurd h other.1, fun zero => ?_⟩
  rw [some] at zero
  cases zero

theorem valueForm_iff_blob {blobs : List String} {key : String}
    (blob : key ∈ blobs ∧ key ≠ noteKey) (v : Value) :
    ValueForm blobs key v ↔ (∃ bs, v = .bin bs) ∧ v.isZero = false := by
  constructor
  · exact fun form =>
      ⟨form.blob blob.1, Bool.eq_false_iff.mpr fun zero => blob.2 (form.nonzero zero).1⟩
  · rintro ⟨bin, some⟩
    refine ⟨fun _ => bin, fun zero => ?_⟩
    rw [some] at zero
    cases zero

theorem valueForm_iff_note (v : Value) :
    ValueForm blobKeys noteKey v ↔ ∃ bs, v = .bin bs ∧ bs ≠ [] := by
  constructor
  · intro form
    obtain ⟨bs, rfl⟩ := form.blob (by decide)
    refine ⟨bs, rfl, ?_⟩
    rintro rfl
    obtain ⟨-, bs, hbs, some⟩ := form.nonzero rfl
    exact some (Value.bin.inj hbs).symm
  · rintro ⟨bs, rfl, some⟩
    exact ⟨fun _ => ⟨bs, rfl⟩, fun _ => ⟨rfl, bs, rfl, some⟩⟩

/-- What a key of a transaction holds is in canonical form. -/
def Good (key : String) (v : Value) : Prop :=
  ValueForm blobKeys key v ∧
    (key = paramsKey → ∀ params, v = .map params → EntriesForm paramBlobKeys params)

theorem good_iff {key : String} (h : key ≠ paramsKey) (v : Value) :
    Good key v ↔ ValueForm blobKeys key v :=
  ⟨And.left, fun form => ⟨form, fun e => absurd e h⟩⟩

theorem good_iff_nonzero {key : String} (h : key ≠ paramsKey ∧ key ∉ blobKeys ∧ key ≠ noteKey)
    (v : Value) : Good key v ↔ v.isZero = false :=
  (good_iff h.1 v).trans (valueForm_iff_nonzero h.2 v)

theorem good_iff_blob {key : String} (h : key ≠ paramsKey ∧ key ∈ blobKeys ∧ key ≠ noteKey)
    (v : Value) : Good key v ↔ (∃ bs, v = .bin bs) ∧ v.isZero = false :=
  (good_iff h.1 v).trans (valueForm_iff_blob h.2 v)

theorem good_iff_note (v : Value) : Good noteKey v ↔ ∃ bs, v = .bin bs ∧ bs ≠ [] :=
  (good_iff (by decide) v).trans (valueForm_iff_note v)

theorem Good.ne_nil {key : String} {v : Value} (h : Good key v) : v ≠ .nil :=
  h.1.ne_nil

/-! ## Every field is exact -/

open LedgerCodec.Field

theorem AssetParams.exact_fields :
    (Record.fields (ρ := AssetParams)).All (Field.Exact (ValueForm paramBlobKeys)) := by
  have other {key : String} := @valueForm_iff_nonzero paramBlobKeys key
  have blob {key : String} := @valueForm_iff_blob paramBlobKeys key
  exact ⟨exact_uint64 (other (by decide)), exact_narrow (other (by decide)),
    exact_bool (other (by decide)), exact_text (other (by decide)),
    exact_text (other (by decide)), exact_text (other (by decide)),
    exact_fixed (blob (by decide)), exact_fixed (blob (by decide)),
    exact_fixed (blob (by decide)), exact_fixed (blob (by decide)),
    exact_fixed (blob (by decide))⟩

theorem Header.exact_fields : (Record.fields (ρ := Header)).All (Field.Exact Good) := by
  have other {key : String} := @good_iff_nonzero key
  have blob {key : String} := @good_iff_blob key
  exact ⟨exact_fixed (blob (by decide)), exact_uint64 (other (by decide)),
    exact_uint64 (other (by decide)), exact_uint64 (other (by decide)),
    exact_blob good_iff_note, exact_text (other (by decide)),
    exact_fixed (blob (by decide)), exact_fixed (blob (by decide)),
    exact_fixed (blob (by decide)), exact_fixed (blob (by decide))⟩

theorem paramsKey_plain : paramsKey ∉ blobKeys ∧ paramsKey ≠ noteKey := by
  decide

/-- Parameters are written as a map in canonical form, and only one such map stands for them. -/
theorem exact_params {name : String} {absent : Option AssetParams} :
    (⟨name, paramsKey, .nested, absent⟩ : Field AssetParams).Exact Good where
  good_write {x} some := by
    have l := @AssetParams.lawful_fields 0
    have perm := sortByKey_perm (entriesOf x).list
    have form : ∀ e ∈ (entriesOf x).list, ValueForm paramBlobKeys e.1 e.2 ∧ e.1 ≠ noteKey := by
      rw [Record.entriesOf_list]
      intro e he
      refine ⟨Fields.good_entries AssetParams.exact_fields _ e he, fun note => ?_⟩
      have key : noteKey ∈ Record.keys AssetParams := note ▸ Fields.key_mem_of_mem_entries he
      revert key
      decide
    refine ⟨⟨fun h => absurd h paramsKey_plain.1, fun zero => ?_⟩, fun _ params h => ?_⟩
    · -- An entry is there, and it would be zero.
      have zeros := Value.entriesZero_iff.mp zero
      cases hlist : (entriesOf x).list with
      | nil => simp [Kind.nested, Writer.nested, Writer.record, Entries.isEmpty, hlist] at some
      | cons e es =>
        have he : e ∈ (entriesOf x).list := by rw [hlist]; exact List.mem_cons_self
        exact absurd ((form e he).1.nonzero (zeros e (perm.mem_iff.mpr he))).1 (form e he).2
    · cases h
      refine ⟨ascending_sortByKey ?_, fun e he => (form e (perm.mem_iff.mp he)).1⟩
      rw [Record.entriesOf_list]
      exact Fields.nodup_keys_entries l.distinct _
  write_read {v x} hv read := by
    have l := @AssetParams.lawful_fields 0
    obtain ⟨params, hparams, -⟩ := Record.of_decodeValue l.distinct read
    obtain rfl : v = .map params := hparams.resolve_right fun none => hv.ne_nil none.1
    -- What was read is in canonical form already, so it is what will be written.
    have form := hv.2 rfl params rfl
    have wrote : (entriesOf x).toValue = .map params :=
      Record.toValue_of_good l AssetParams.exact_fields ValueForm.ne_nil form.ascending form.values
        read
    refine ⟨Bool.eq_false_iff.mpr fun none => ?_, wrote⟩
    have zero : (entriesOf x).toValue.isZero = true :=
      (Kind.lawful_nested (Record.lawful l)).isZero_write none
    rw [wrote] at zero
    exact absurd (hv.1.nonzero zero).1 paramsKey_plain.2

theorem Payload.exact_fieldsOf (t : TxnType) : (Payload.fieldsOf t).All (Field.Exact Good) := by
  have other {key : String} := @good_iff_nonzero key
  have blob {key : String} := @good_iff_blob key
  cases t with
  | payment =>
    exact ⟨exact_fixed (blob (by decide)), exact_uint64 (other (by decide)),
      exact_fixed (blob (by decide))⟩
  | keyRegistration =>
    exact ⟨exact_fixed (blob (by decide)), exact_fixed (blob (by decide)),
      exact_uint64 (other (by decide)), exact_uint64 (other (by decide)),
      exact_uint64 (other (by decide))⟩
  | assetConfig => exact ⟨exact_uint64 (other (by decide)), exact_params⟩
  | assetTransfer =>
    exact ⟨exact_uint64 (other (by decide)), exact_uint64 (other (by decide)),
      exact_fixed (blob (by decide)), exact_fixed (blob (by decide)),
      exact_fixed (blob (by decide))⟩
  | assetFreeze =>
    exact ⟨exact_fixed (blob (by decide)), exact_uint64 (other (by decide)),
      exact_bool (other (by decide))⟩

/-! ## Transactions -/

namespace Transaction

theorem good_entries (t : Transaction) : ∀ e ∈ t.entries, Good e.1 e.2 := by
  intro e he
  rcases mem_entries.mp he with he | rfl | he
  · exact Fields.good_entries Header.exact_fields _ e he
  · refine (@good_iff_nonzero Payload.typeKey (by decide) _).mpr ?_
    cases t.type <;> decide
  · exact Fields.good_entries (Payload.exact_fieldsOf _) _ e he

/-- Canonical bytes are in canonical form. -/
theorem isCanonical_encode {t : Transaction} (fits : Fits Limits.nesting (entriesOf t).toValue) :
    IsCanonical (encode t) := by
  have perm := sortByKey_perm t.entries
  have value : (entriesOf t).toValue = .map (sortByKey t.entries) := by
    rw [Entries.toValue, entriesOf_list]
  refine ⟨sortByKey t.entries, ?_, ?_, ⟨ascending_sortByKey t.nodup_keys_entries, ?_⟩, ?_⟩
  · rw [← value]
    exact parse_write fits
  · rw [← value]
    rfl
  · exact fun e he => (t.good_entries e (perm.mem_iff.mp he)).1
  · exact fun params he => (t.good_entries _ (perm.mem_iff.mp he)).2 rfl params rfl

/-- Bytes in canonical form are encoded as they were. -/
theorem encode_of_isCanonical {bs : Bytes} {t : Transaction} (h : decode bs = .ok t)
    (form : IsCanonical bs) : encode t = bs := by
  obtain ⟨es, parsed, written, form, params⟩ := form
  have read : decodeValue rootKey (.map es) = .ok t := by
    rw [decode, parsed] at h
    exact h
  have distinct := form.ascending.nodup
  rw [decodeValue_eq_ok distinct] at read
  obtain ⟨read, foreign⟩ := read
  have hgood : ∀ e ∈ es, Good e.1 e.2 := fun e he =>
    ⟨form.values e he, fun key m hm => params m (by rw [← key, ← hm]; exact he)⟩
  have held {e : String × Value} : (⟨es⟩ : Pending).find? e.1 = some e.2 ↔ e ∈ es :=
    Pending.find?_eq_some_iff_mem distinct fun e he => (hgood e he).ne_nil
  have goodHeld {key : String} {v : Value} (h : (⟨es⟩ : Pending).find? key = some v) : Good key v :=
    hgood (key, v) (held.mp h)
  obtain ⟨header, tag, payload⟩ := readBy_eq_ok.mp read
  -- Both lists are ascending once sorted, so it is enough that they have the same entries.
  have same : ∀ e, e ∈ t.entries ↔ e ∈ es := by
    intro e
    rw [mem_entries, Fields.mem_entries_iff (@Header.lawful_fields 0).kinds Header.exact_fields
      goodHeld header, Payload.entries, Fields.mem_entries_iff (Payload.lawful_fieldsOf 0 _).kinds
      (Payload.exact_fieldsOf _) goodHeld payload, held]
    constructor
    · rintro (⟨-, he⟩ | rfl | ⟨-, he⟩)
      · exact he
      · exact held.mp tag
      · exact he
    · intro he
      have own : e.1 ∈ keysFor t.type := by
        -- An entry of another type would be zero.
        by_cases own : e.1 ∈ keysFor t.type
        · exact own
        · rw [((hgood e he).1.nonzero (foreign e he own).2).1]
          exact mem_keysFor.mpr (.inl (by decide))
      rcases mem_keysFor.mp own with key | key | key
      · exact .inl ⟨key, he⟩
      · have value := held.mpr he
        rw [key, tag] at value
        exact .inr (.inl (Prod.ext key (Option.some.inj value).symm))
      · exact .inr (.inr ⟨Payload.keysOf_eq t.payload.type ▸ key, he⟩)
  rw [← written]
  show ((Value.map (sortByKey (entriesOf t).list)).write) = _
  rw [entriesOf_list, sortByKey_eq_of_mem_iff t.nodup_keys_entries form.ascending same]

/-- Bytes that decode to a transaction are its encoding exactly if they are in canonical form, and
every encoding is. -/
theorem encode_eq_iff_isCanonical (bs : Bytes) (t : Transaction) :
    (decode bs = .ok t → (encode t = bs ↔ IsCanonical bs)) ∧
      (t.Small → IsCanonical (encode t)) := by
  refine ⟨fun decoded => ⟨fun same => ?_, encode_of_isCanonical decoded⟩, fun small => ?_⟩
  · obtain ⟨v, parsed, read⟩ := bind_eq_ok.mp decoded
    rw [← same]
    exact isCanonical_encode ((@lawful 30).fits_of_decodeValue (fits_of_parse parsed) read)
  · exact isCanonical_encode small.fits

/-- A payment whose tag stands before its fee is not in canonical form, and is not encoded so. -/
theorem not_isCanonical_tag_first :
    let bs : Bytes := [0x82, 0xa4, 0x74, 0x79, 0x70, 0x65, 0xa3, 0x70, 0x61, 0x79,
      0xa3, 0x66, 0x65, 0x65, 0x05]
    let t : Transaction := ⟨{ (default : Header) with fee := 5 }, .payment default⟩
    decode bs = .ok t ∧ ¬ IsCanonical bs ∧ t.Small ∧ IsCanonical (encode t) := by
  intro bs t
  have decoded : decode bs = .ok t := by decide +kernel
  have differ : encode t ≠ bs := by decide +kernel
  have small : t.Small := ⟨⟨by decide, by decide +kernel⟩, trivial⟩
  obtain ⟨iff, image⟩ := encode_eq_iff_isCanonical bs t
  exact ⟨decoded, fun form => differ ((iff decoded).mpr form), small, image small⟩

end Transaction

end LedgerCodec
