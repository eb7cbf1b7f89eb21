import LedgerCodec.Proofs.Wire.Depth
import LedgerCodec.Proofs.Txn.RoundTrip
/-!
# A transaction alone and in an envelope

The envelope that holds a transaction and nothing else is one map around it. It
carries whatever bytes the transaction is decoded from, canonical or not, as long
as they leave one level of nesting for that map: `decode_wrapped`.
-/

namespace LedgerCodec

open Wire

/-- Under what key a map stands matters only to what is said about it when it is refused. -/
theorem decodeValue_eq_ok_of_key {α : Type} [Canonical α] {key key' : String} {v : Value} {x : α}
    (h : decodeValue key v = .ok x) : decodeValue key' v = .ok x := by
  cases v with
  | nil | map => exact h
  | _ => cases h

namespace Envelope

/-- An envelope with nothing but a transaction is read from a map with nothing but that. -/
theorem decodeValue_txn {v : Value} {t : Transaction} :
    decodeValue rootKey (.map [("txn", v)]) = .ok (unsigned t) ↔ decodeValue "txn" v = .ok t := by
  have distinct : ([("txn", v)].map Prod.fst).Nodup := by simp
  have held : (Reader.nested : Reader Transaction).ofHeld "txn"
      ((⟨[("txn", v)]⟩ : Pending).find? "txn") = decodeValue "txn" v := by
    cases v <;> rfl
  constructor
  · intro read
    obtain ⟨es, whole, -, -, row⟩ := Record.of_decodeValue (@lawful_fields 0).distinct read
    rcases whole with whole | ⟨none, -⟩
    · cases whole
      obtain ⟨-, -, -, txn, -⟩ := Fields.readBy_eq_ok.mp row
      exact held.symm.trans txn
    · cases none
  · intro read
    have row : (Fields.readBy (Record.fields (ρ := Envelope)) fun k =>
        (⟨[("txn", v)]⟩ : Pending).find? k) = .ok (Record.row (unsigned t)) :=
      Fields.readBy_eq_ok.mpr ⟨rfl, rfl, rfl, held.trans read, rfl⟩
    rw [Record.decodeValue_map (@lawful_fields 0).distinct rootKey distinct, row]
    rfl

/-- The bytes of the map whose one entry is the transaction that `bs` spells. -/
def wrapped (bs : Bytes) : Bytes :=
  [0x81, 0xa3, 0x74, 0x78, 0x6e] ++ bs

theorem parse_wrapped (bs : Bytes) :
    parse (wrapped bs) = nestedValue 31 bs >>= fun (v, rest) =>
      if rest.isEmpty then .ok (.map [("txn", v)]) else .error (.trailingBytes rest.length) := by
  have key : writeStr "txn" = [0xa3, 0x74, 0x78, 0x6e] := by decide
  have whole : wrapped bs = [0x81] ++ (writeStr "txn" ++ bs) := by
    rw [key]
    rfl
  have levels : Limits.nesting - 1 = 31 := rfl
  rw [whole, parse_singleton (by decide), levels]

theorem parse_wrapped_eq_ok {bs : Bytes} {v : Value} :
    parse (wrapped bs) = .ok v ↔ ∃ w, v = .map [("txn", w)] ∧ parse bs = .ok w ∧ w.depth ≤ 31 := by
  rw [parse_wrapped]
  constructor
  · intro h
    obtain ⟨⟨w, rest⟩, read, whole⟩ := bind_eq_ok.mp h
    dsimp only at whole
    split at whole
    · rename_i none
      cases whole
      obtain rfl := List.isEmpty_iff.mp none
      exact ⟨w, rfl, parse_of_nestedValue (by decide) read⟩
    · cases whole
  · rintro ⟨w, rfl, parsed, shallow⟩
    rw [nestedValue_of_parse parsed, if_pos shallow]
    rfl

/-- An envelope is decoded from a map around the bytes of a transaction exactly if these are decoded
alone to this transaction, and nest one level less than bytes may. Otherwise they are refused as
nested too deep, whatever they hold. -/
theorem decode_wrapped (bs : Bytes) :
    (∀ t, decode (wrapped bs) = .ok (unsigned t) ↔
      decode bs = .ok t ∧ ∃ v, parse bs = .ok v ∧ v.depth ≤ 31) ∧
    ∀ v, parse bs = .ok v → 31 < v.depth →
      (decode (wrapped bs) : Except Error Envelope) = .error (.nestingTooDeep 32) := by
  refine ⟨fun t => ?_, fun v parsed deep => ?_⟩
  · rw [decode, bind_eq_ok, decode, bind_eq_ok]
    constructor
    · rintro ⟨v, parsed, read⟩
      obtain ⟨w, rfl, parsed, shallow⟩ := parse_wrapped_eq_ok.mp parsed
      exact ⟨⟨w, parsed, decodeValue_eq_ok_of_key (decodeValue_txn.mp read)⟩, w, parsed, shallow⟩
    · rintro ⟨⟨v, parsed, read⟩, w, same, shallow⟩
      obtain rfl : v = w := Except.ok.inj (parsed.symm.trans same)
      refine ⟨_, parse_wrapped_eq_ok.mpr ⟨v, rfl, parsed, shallow⟩, ?_⟩
      exact decodeValue_txn.mpr (decodeValue_eq_ok_of_key read)
  · rw [decode, parse_wrapped, nestedValue_of_parse parsed, if_neg (Nat.not_le.mpr deep)]
    rfl

/-- The bytes of a payment with parameters of an asset, none of them set, that hold one another so
many times. -/
def paymentAround (levels : Nat) : Bytes :=
  [0x82, 0xa4, 0x74, 0x79, 0x70, 0x65, 0xa3, 0x70, 0x61, 0x79, 0xa4, 0x61, 0x70, 0x61, 0x72] ++
    (List.replicate levels [0x81, 0xa1, 0x61]).flatten ++ [0x80]

/-- With as many levels as bytes may nest, the payment is decoded alone and not in an envelope. -/
theorem decode_wrapped_deepest :
    ¬ ∀ (bs : Bytes) (t : Transaction),
      decode bs = .ok t ↔ decode (wrapped bs) = .ok (unsigned t) := by
  intro claimed
  have alone : decode (paymentAround 30) = .ok (⟨default, .payment default⟩ : Transaction) := by
    decide +kernel
  have inside : (decode (wrapped (paymentAround 30)) : Except Error Envelope) =
      .error (.nestingTooDeep 32) := by
    decide +kernel
  cases inside.symm.trans ((claimed _ _).mp alone)

/-- With one level less it is decoded in an envelope as well. -/
theorem decode_wrapped_payment :
    let t : Transaction := ⟨default, .payment default⟩
    decode (paymentAround 29) = .ok t ∧ decode (wrapped (paymentAround 29)) = .ok (unsigned t) ∧
      decode (paymentAround 30) = .ok t ∧
      (decode (wrapped (paymentAround 30)) : Except Error Envelope) =
        .error (.nestingTooDeep 32) := by
  intro t
  have alone : decode (paymentAround 29) = .ok t := by decide +kernel
  have deepest : decode (paymentAround 30) = .ok t := by decide +kernel
  have depth : (parse (paymentAround 29)).map Value.depth = .ok 31 := by decide +kernel
  have depthDeepest : (parse (paymentAround 30)).map Value.depth = .ok 32 := by decide +kernel
  obtain ⟨v, parsed, shallow⟩ := map_eq_ok.mp depth
  obtain ⟨w, parsedDeepest, deep⟩ := map_eq_ok.mp depthDeepest
  exact ⟨alone, ((decode_wrapped _).1 t).mpr ⟨alone, v, parsed, Nat.le_of_eq shallow⟩, deepest,
    (decode_wrapped _).2 w parsedDeepest (by omega)⟩

end Envelope

end LedgerCodec
