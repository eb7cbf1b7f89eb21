import LedgerCodec.Proofs.Txn.Domains
import LedgerCodec.Proofs.Txn.RoundTrip
/-!
# An id stands for one transaction

The bytes that are signed and hashed determine the transaction, because it can
be decoded from them. So two transactions with one id are the same, or their
signable bytes are a collision of the hash function.
-/

namespace LedgerCodec

namespace Transaction

theorem encode_injective {t u : Transaction} (smallT : t.Small) (smallU : u.Small)
    (h : encode t = encode u) : t = u := by
  have same : (Except.ok t : Except Error Transaction) = .ok u :=
    calc Except.ok t
      _ = decode (encode t) := smallT.comes_back.symm
      _ = decode (encode u) := by rw [h]
      _ = .ok u := smallU.comes_back
  exact Except.ok.inj same

theorem signable_injective {t u : Transaction} (smallT : t.Small) (smallU : u.Small)
    (h : t.signable = u.signable) : t = u :=
  encode_injective smallT smallU (tagged_injective h)

/-- Ids are hashes of signable bytes. -/
theorem hash_of_id_eq {t u : Transaction} (h : t.id = u.id) :
    Sha512.hash t.signable = Sha512.hash u.signable := by
  have raw : t.id.digest.raw = u.id.digest.raw := by rw [h]
  exact (Hashed.raw_hash t).symm.trans (raw.trans (Hashed.raw_hash u))

/-- Different transactions are signed as different bytes, and have different ids unless these bytes
collide. -/
theorem id_binds (t u : Transaction) (smallT : t.Small) (smallU : u.Small) :
    (t.signable = u.signable → t = u) ∧
      (t.id = u.id →
        t = u ∨ t.signable ≠ u.signable ∧ Sha512.hash t.signable = Sha512.hash u.signable) := by
  refine ⟨signable_injective smallT smallU, fun same => ?_⟩
  by_cases equal : t = u
  · exact .inl equal
  · have differ : t.signable ≠ u.signable := fun h => equal (signable_injective smallT smallU h)
    exact .inr ⟨differ, hash_of_id_eq same⟩

/-- A payment and a key registration in which nothing is set differ in what is signed. -/
theorem id_binds_type :
    let t : Transaction := ⟨default, .payment default⟩
    let u : Transaction := ⟨default, .keyRegistration default⟩
    t.Small ∧ u.Small ∧ t.signable ≠ u.signable ∧
      (t.id = u.id → Sha512.hash t.signable = Sha512.hash u.signable) := by
  intro t u
  have header : (default : Header).Small := ⟨by decide, by decide⟩
  have smallT : t.Small := ⟨header, trivial⟩
  have smallU : u.Small := ⟨header, trivial⟩
  have differ : t ≠ u := by decide
  obtain ⟨signed, hashed⟩ := id_binds t u smallT smallU
  exact ⟨smallT, smallU, fun h => differ (signed h), fun h => ((hashed h).resolve_left differ).2⟩

end Transaction

end LedgerCodec
