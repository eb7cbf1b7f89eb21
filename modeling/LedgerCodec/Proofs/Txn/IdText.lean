import LedgerCodec.Proofs.Bytes.Base32
import LedgerCodec.Txn.Id
/-!
# Texts of ids

An id has one text: 52 digits whose bits are those of the id and four zeros. Read
as an id, every other text is refused, and the refusal names it: `one_text`.
-/

namespace LedgerCodec.TxnId

theorem length_text (id : TxnId) : id.text.length = Base32.textLength := by
  rw [text, Base32.length_encode, Fixed.bytes, id.digest.raw.length_bytes]
  rfl

/-- The digits of a text hold the bits of the id and four zeros. -/
theorem bits_text (id : TxnId) :
    (id.text.toList.flatMap fun c => Base32.bits 5 (Base32.alphabet.idxOf c)) =
      (id.bytes.flatMap fun b => Base32.bits 8 b.toNat) ++ [false, false, false, false] := by
  have length : id.digest.bytes.length = 32 := id.digest.raw.length_bytes
  have shown := Base32.bits_encode id.digest.bytes
  rwa [length] at shown

theorem hasShape_text (id : TxnId) : hasShape id.text = true := by
  have length : (utf8 id.text).length = id.text.length := by
    rw [text, Base32.length_utf8_encode, Base32.length_encode]
  have alphabetic : (utf8 id.text).all Base32.isDigit = true := Base32.all_isDigit_encode _
  simp only [hasShape, length, length_text, beq_self_eq_true, alphabetic, Bool.and_self]

/-- The text of an id is read as that id, and no other text is. -/
theorem ofText_eq_ok {s : String} {id : TxnId} : ofText s = .ok id ↔ s = id.text := by
  constructor
  · intro h
    unfold ofText at h
    split at h
    · rename_i shape
      split at h
      · rename_i digest found
        cases h
        obtain ⟨bs, decoded, taken⟩ := Option.bind_eq_some_iff.mp found
        have same : digest.bytes = bs := Fixed.bytes_of_ofBytes? taken
        rw [text, same]
        exact (Base32.encode_of_decode? (Bool.and_eq_true_iff.mp shape).2 decoded).symm
      · cases h
    · cases h
  · rintro rfl
    have back : Base32.decode? id.text = some id.digest.bytes := Base32.decode?_encode _
    rw [ofText, if_pos id.hasShape_text, back, Option.bind_some, Fixed.ofBytes?_bytes]

theorem eq_invalidId_of_ofText {s : String} {e : Error} (h : ofText s = .error e) :
    e = .invalidId s := by
  unfold ofText at h
  split at h
  · split at h
    · cases h
    · cases h
      rfl
  · cases h
    rfl

/-- A text is refused only as itself. -/
theorem ofText_eq_error {s : String} {e : Error} :
    ofText s = .error e ↔ (∀ id : TxnId, s ≠ id.text) ∧ e = .invalidId s := by
  constructor
  · intro h
    refine ⟨fun id same => ?_, eq_invalidId_of_ofText h⟩
    rw [ofText_eq_ok.mpr same] at h
    cases h
  · rintro ⟨none, rfl⟩
    cases read : ofText s with
    | ok id => exact absurd (ofText_eq_ok.mp read) (none id)
    | error e => rw [eq_invalidId_of_ofText read]

/-- Texts and ids determine each other: the text of an id is its bits in groups of five, it is read
as that id, and no other text is. -/
theorem one_text (id : TxnId) (s : String) :
    id.text.length = 52 ∧
      (∀ c ∈ id.text.toList, c ∈ "ABCDEFGHIJKLMNOPQRSTUVWXYZ234567".toList) ∧
      (id.text.toList.flatMap fun c => Base32.bits 5 (Base32.alphabet.idxOf c)) =
        (id.bytes.flatMap fun b => Base32.bits 8 b.toNat) ++ [false, false, false, false] ∧
      ofText id.text = .ok id ∧
      (ofText s = .ok id ↔ s = id.text) ∧
      (∀ e, ofText s = .error e ↔ (∀ id' : TxnId, s ≠ id'.text) ∧ e = .invalidId s) :=
  ⟨id.length_text, fun _ hc => Base32.encode_subset _ hc, id.bits_text, ofText_eq_ok.mpr rfl,
    ofText_eq_ok, fun _ => ofText_eq_error⟩

end LedgerCodec.TxnId
