import LedgerCodec.Txn.Envelope
import LedgerCodec.Txn.Group
import LedgerCodec.Proofs.Record.Laws
/-!
# The fields of every record

Every record in use has lawful fields: no key stands for two of them, and each
kind reads back what it writes. So the records are lawful too, the ones that are
nested in others first. The values of a record that the wire can carry are those
whose texts, blobs and lists are shorter than 2^32: they are called small.
-/

namespace LedgerCodec

open Wire Kind

variable {levels : Nat}

/-! ## Fields without a length of their own -/

theorem fits_fixed {role : Role} (x : Fixed role) : Fits levels ((fixed role).writer.write x) :=
  (lawful_fixed levels role).fits_of_read (n := levels) (.bin (by
    rw [Sized.length_bytes]
    exact length_role role)) ((lawful_fixed levels role).read_write "" x)

theorem fits_list {τ : Type} {w : Writer τ} {xs : List τ} (short : xs.length < lengthBound)
    (h : ∀ x ∈ xs, Fits levels (w.write x)) : Fits (levels + 1) ((Writer.list w).write xs) := by
  refine .array (by rwa [List.length_map]) fun v hv => ?_
  obtain ⟨x, hx, rfl⟩ := List.mem_map.mp hv
  exact h x hx

/-! ## Headers -/

theorem Header.lawful_fields : (Record.fields (ρ := Header)).Lawful levels where
  distinct := by decide
  short := by decide
  size := by decide
  kinds := ⟨lawful_fixed _ _, lawful_uint64 _, lawful_uint64 _, lawful_uint64 _, lawful_blob _,
    lawful_text _, lawful_fixed _ _, lawful_fixed _ _, lawful_fixed _ _, lawful_fixed _ _⟩

/-- The wire can carry a header. -/
structure Header.Small (h : Header) : Prop where
  note : h.note.length < lengthBound
  genesisId : (utf8 h.genesisId).length < lengthBound

theorem Header.Small.fit {h : Header} (small : h.Small) :
    Fields.Fit Record.fields levels (Record.row h) :=
  ⟨fits_fixed _, .uint _, .uint _, .uint _, .bin small.note,
    .str small.genesisId, fits_fixed _, fits_fixed _, fits_fixed _, fits_fixed _⟩

/-! ## Payloads -/

theorem Payment.lawful_fields : (Record.fields (ρ := Payment)).Lawful levels where
  distinct := by decide
  short := by decide
  size := by decide
  kinds := ⟨lawful_fixed _ _, lawful_uint64 _, lawful_fixed _ _⟩

theorem Payment.fit (p : Payment) :
    Fields.Fit Record.fields levels (Record.row p) :=
  ⟨fits_fixed _, .uint _, fits_fixed _⟩

theorem KeyRegistration.lawful_fields : (Record.fields (ρ := KeyRegistration)).Lawful levels where
  distinct := by decide
  short := by decide
  size := by decide
  kinds := ⟨lawful_fixed _ _, lawful_fixed _ _, lawful_uint64 _, lawful_uint64 _, lawful_uint64 _⟩

theorem KeyRegistration.fit (k : KeyRegistration) :
    Fields.Fit Record.fields levels (Record.row k) :=
  ⟨fits_fixed _, fits_fixed _, .uint _, .uint _, .uint _⟩

theorem AssetParams.lawful_fields : (Record.fields (ρ := AssetParams)).Lawful levels where
  distinct := by decide
  short := by decide
  size := by decide
  kinds := ⟨lawful_uint64 _, lawful_narrow _ _, lawful_bool _, lawful_text _, lawful_text _,
    lawful_text _, lawful_fixed _ _, lawful_fixed _ _, lawful_fixed _ _, lawful_fixed _ _,
    lawful_fixed _ _⟩

/-- The wire can carry the parameters of an asset. -/
structure AssetParams.Small (a : AssetParams) : Prop where
  unitName : (utf8 a.unitName).length < lengthBound
  assetName : (utf8 a.assetName).length < lengthBound
  url : (utf8 a.url).length < lengthBound

theorem AssetParams.Small.fit {a : AssetParams} (small : a.Small) :
    Fields.Fit Record.fields levels (Record.row a) :=
  ⟨.uint _, .uint _, .bool _, .str small.unitName, .str small.assetName,
    .str small.url, fits_fixed _, fits_fixed _, fits_fixed _, fits_fixed _, fits_fixed _⟩

theorem AssetConfig.lawful_fields : (Record.fields (ρ := AssetConfig)).Lawful (levels + 1) where
  distinct := by decide
  short := by decide
  size := by decide
  kinds := ⟨lawful_uint64 _, lawful_nested (Record.lawful AssetParams.lawful_fields)⟩

theorem AssetConfig.fit {c : AssetConfig} (small : c.params.Small) :
    Fields.Fit Record.fields (levels + 1) (Record.row c) :=
  ⟨.uint _, Record.fits_toValue AssetParams.lawful_fields (Fields.fits_entries small.fit)⟩

theorem AssetTransfer.lawful_fields : (Record.fields (ρ := AssetTransfer)).Lawful levels where
  distinct := by decide
  short := by decide
  size := by decide
  kinds := ⟨lawful_uint64 _, lawful_uint64 _, lawful_fixed _ _, lawful_fixed _ _, lawful_fixed _ _⟩

theorem AssetTransfer.fit (t : AssetTransfer) :
    Fields.Fit Record.fields levels (Record.row t) :=
  ⟨.uint _, .uint _, fits_fixed _, fits_fixed _, fits_fixed _⟩

theorem AssetFreeze.lawful_fields : (Record.fields (ρ := AssetFreeze)).Lawful levels where
  distinct := by decide
  short := by decide
  size := by decide
  kinds := ⟨lawful_fixed _ _, lawful_uint64 _, lawful_bool _⟩

theorem AssetFreeze.fit (f : AssetFreeze) :
    Fields.Fit Record.fields levels (Record.row f) :=
  ⟨fits_fixed _, .uint _, .bool _⟩

/-! ## Groups -/

theorem Group.lawful_fields : (Record.fields (ρ := Group)).Lawful (levels + 1) where
  distinct := by decide
  short := by decide
  size := by decide
  kinds := lawful_list (lawful_fixed levels _).read_write fun fits read =>
    (lawful_fixed levels _).fits_of_read fits read

theorem Group.fit {g : Group} (short : g.hashes.length < lengthBound) :
    Fields.Fit Record.fields (levels + 1) (Record.row g) :=
  fits_list short fun _ _ => fits_fixed _

end LedgerCodec
