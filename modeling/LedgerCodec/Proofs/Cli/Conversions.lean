import LedgerCodec.Cli.Command
import LedgerCodec.Proofs.Txn.Groups
import LedgerCodec.Proofs.Txn.JsonRoundTrip
/-!
# Commands that agree with each other

What one command prints is the input of another. The JSON and the hexadecimal
text of a transaction lead every command to the same transaction:
`conversions_agree`. The two commands about groups take the same inputs, and the
members that are printed make the same group again: `grouping_agrees`.
-/

namespace LedgerCodec

open Wire

/-! ## Hexadecimal texts -/

namespace Hex

theorem encode_append (as bs : Bytes) : encode (as ++ bs) = encode as ++ encode bs := by
  unfold encode chars
  rw [List.flatMap_append, String.ofList_append]

theorem isBlank_digit {n : UInt8} (h : n < 16) : Text.isBlank (digit n) = false := by
  have all : ∀ n < 16, Text.isBlank (digit (UInt8.ofNat n)) = false := by
    decide +kernel
  rw [← UInt8.ofNat_toNat (x := n)]
  exact all n.toNat h

/-- Digits are no blanks. -/
theorem plain_encode (bs : Bytes) : ∀ c ∈ (encode bs).toList, Text.isBlank c = false := by
  intro c hc
  unfold encode chars at hc
  rw [String.toList_ofList] at hc
  obtain ⟨b, -, hb⟩ := List.mem_flatMap.mp hc
  unfold digits at hb
  rcases List.mem_pair.mp hb with rfl | rfl
  · exact isBlank_digit (half_lt b)
  · exact isBlank_digit (UInt8.mod_lt b (by decide))

end Hex

/-! ## JSON texts -/

/-- A value is read from the text with a line for each member. -/
theorem Json.Form.Lawful.parse_pretty {τ : Type} {f : Json.Form τ} (lawful : f.Lawful) (x : τ) :
    f.parse (f.write x).pretty = .ok x :=
  lawful.parse_spelled (Json.spells_pretty (lawful.printable x))

theorem Transaction.ofJson_pretty (t : Transaction) : ofJson (toJson t).pretty = .ok t :=
  Transaction.lawful_form.parse_pretty t

theorem Envelope.ofJson_pretty (e : Envelope) : ofJson (toJson e).pretty = .ok e :=
  Envelope.lawful_form.parse_pretty e

namespace Cli

open Text

variable {s h o padded : String} {t : Transaction} {e : Envelope} {ts us : List Transaction}

/-! ## Reading inputs -/

theorem readHex_of_padded {bs : Bytes} (around : Padded (Hex.encode bs) padded) :
    readHex padded = .ok bs := by
  unfold readHex
  rw [trim_of_padded around (Hex.plain_encode bs), Hex.reads_encode]
  rfl

theorem readTransaction_json : readTransaction .json s = .ok t ↔ ofJson s = .ok t :=
  mapError_eq_ok

theorem readEnvelope_eq_ok : readEnvelope s = .ok e ↔ ofJson s = .ok e :=
  mapError_eq_ok

/-- The hexadecimal text of a transaction stands for it, whatever blanks are around. -/
theorem readTransaction_hex (small : t.Small) (around : Padded (Hex.encode (encode t)) padded) :
    readTransaction .hex padded = .ok t := by
  unfold readTransaction
  dsimp only
  rw [readHex_of_padded around, bind_ok, small.comes_back]
  rfl

theorem readTransactions_pretty (ts : List Transaction) :
    readTransactions (Json.list (ts.map toJson)).pretty = .ok ts := by
  have lawful := Json.Form.lawful_list Transaction.lawful_form
  unfold readTransactions
  apply mapError_eq_ok.mpr
  exact lawful.parse_pretty ts

/-! ## What is printed -/

theorem perform_id {format : InputFormat} (read : readTransaction format s = .ok t) (raw : Bool) :
    perform (.id format raw) s = .ok (if raw then Hex.encode t.id.bytes else t.id.text) := by
  unfold perform
  dsimp only
  rw [read, bind_ok]

theorem perform_encode_eq_ok :
    perform .encode s = .ok h ↔
      ∃ t : Transaction, ofJson s = .ok t ∧ h = Hex.encode (encode t) := by
  unfold perform
  dsimp only
  rw [bind_eq_ok]
  apply exists_congr
  intro t
  rw [readTransaction_json, Except.ok.injEq, eq_comm (a := h)]

theorem perform_encodeSigned_eq_ok :
    perform .encodeSigned s = .ok h ↔
      ∃ e : Envelope, ofJson s = .ok e ∧ h = Hex.encode (encode e) := by
  unfold perform
  dsimp only
  rw [bind_eq_ok]
  apply exists_congr
  intro e
  rw [readEnvelope_eq_ok, Except.ok.injEq, eq_comm (a := h)]

theorem perform_decode (small : t.Small) (around : Padded (Hex.encode (encode t)) padded) :
    perform .decode padded = .ok (toJson t).pretty := by
  unfold perform
  dsimp only
  rw [readTransaction_hex small around, bind_ok]

theorem perform_decodeSigned (small : e.Small) (around : Padded (Hex.encode (encode e)) padded) :
    perform .decodeSigned padded = .ok (toJson e).pretty := by
  unfold perform
  dsimp only
  rw [readHex_of_padded around, bind_ok, small.comes_back]
  rfl

/-- The bytes that are signed begin with the tag of transactions. -/
theorem encode_signable (t : Transaction) :
    Hex.encode t.signable = "5458" ++ Hex.encode (encode t) := by
  have tag : Hex.encode (utf8 Domain.transaction.tag) = "5458" := by
    decide +kernel
  rw [Transaction.signable, Hashed.bytes, tagged, Hex.encode_append]
  exact congrArg (· ++ _) tag

theorem perform_encodeSignable (read : ofJson s = .ok t) :
    perform .encodeSignable s = .ok (Hex.encode t.signable) := by
  unfold perform
  dsimp only
  rw [readTransaction_json.mpr read, bind_ok]

/-! ## Conversions -/

/-- What the commands print that convert a transaction, given in JSON as `s` and in hexadecimal as
`h`, and `j` is the JSON that is printed for `h`. -/
structure Converted (s h j : String) : Prop where
  /-- The id is the same from `s`, from `j` and from `h`, whatever blanks are around that. -/
  id (raw : Bool) : ∃ text, perform (.id .json raw) s = .ok text ∧
    perform (.id .json raw) j = .ok text ∧
    ∀ padded, Padded h padded → perform (.id .hex raw) padded = .ok text
  /-- The bytes are printed as `j`, whatever blanks are around them. -/
  decode : ∀ padded, Padded h padded → perform .decode padded = .ok j
  /-- They are the bytes of `j`. -/
  encode : perform .encode j = .ok h
  /-- So `j` is printed for the bytes of `j`. -/
  again : (perform .encode j >>= perform .decode) = .ok j
  /-- The bytes that are signed are these with the tag of transactions in front. -/
  signable : perform .encodeSignable s = .ok ("5458" ++ h)
  /-- The raw id is the hash of what is signed. -/
  hashed : ∃ bs, Hex.decode ("5458" ++ h) = .ok bs ∧
    perform (.id .json true) s = .ok (Hex.encode (Sha512.hash bs).bytes)

theorem padded_self (h : String) : Padded h h :=
  ⟨"", "", nofun, nofun, by simp⟩

theorem converted (read : ofJson s = .ok t) (small : t.Small) :
    Converted s (Hex.encode (encode t)) (toJson t).pretty where
  id raw := by
    refine ⟨_, perform_id (readTransaction_json.mpr read) raw,
      perform_id (readTransaction_json.mpr t.ofJson_pretty) raw, ?_⟩
    intro padded around
    exact perform_id (readTransaction_hex small around) raw
  decode padded around := perform_decode small around
  encode := perform_encode_eq_ok.mpr ⟨t, t.ofJson_pretty, rfl⟩
  again := by
    rw [perform_encode_eq_ok.mpr ⟨t, t.ofJson_pretty, rfl⟩, bind_ok]
    exact perform_decode small (padded_self _)
  signable := by
    rw [perform_encodeSignable read, encode_signable]
  hashed := by
    have raw : t.id.digest.raw = Sha512.hash t.signable := Hashed.raw_hash t
    refine ⟨t.signable, ?_, ?_⟩
    · rw [← encode_signable, Hex.reads_encode]
    · rw [← raw]
      exact perform_id (readTransaction_json.mpr read) true

/-- If the bytes of a transaction in JSON are printed, all commands agree on them. And if those of a
signed transaction are printed, they are printed as JSON in turn, and they are the bytes of that.
All this as long as lengths have a place on the wire. -/
theorem conversions_agree (s h : String) :
    (perform .encode s = .ok h → (∀ t : Transaction, ofJson s = .ok t → t.Small) →
      ∃ j, Converted s h j) ∧
    (perform .encodeSigned s = .ok h → (∀ e : Envelope, ofJson s = .ok e → e.Small) →
      ∃ j, (∀ padded, Padded h padded → perform .decodeSigned padded = .ok j) ∧
        perform .encodeSigned j = .ok h) := by
  constructor
  · intro printed small
    obtain ⟨t, read, rfl⟩ := perform_encode_eq_ok.mp printed
    exact ⟨_, converted read (small t read)⟩
  · intro printed small
    obtain ⟨e, read, rfl⟩ := perform_encodeSigned_eq_ok.mp printed
    refine ⟨(toJson e).pretty, ?_, perform_encodeSigned_eq_ok.mpr ⟨e, e.ofJson_pretty, rfl⟩⟩
    intro padded around
    exact perform_decodeSigned (small e read) around

/-- A payment of nothing with a fee, alone and in an envelope. -/
theorem conversions_agree_fee :
    let s := "\x7b\"type\":\"pay\",\"fee\":5\x7d"
    let h := "82a366656505a474797065a3706179"
    perform .encode s = .ok h ∧ (∃ j, Converted s h j) ∧
      perform .encodeSigned ("\x7b\"txn\":" ++ s ++ "\x7d") = .ok ("81a374786e" ++ h) ∧
      ∃ j, (∀ padded, Padded ("81a374786e" ++ h) padded → perform .decodeSigned padded = .ok j) ∧
        perform .encodeSigned j = .ok ("81a374786e" ++ h) := by
  intro s h
  let t : Transaction := ⟨{ (default : Header) with fee := 5 }, .payment default⟩
  have small : t.Small := ⟨⟨by decide, by decide⟩, trivial⟩
  have read : ofJson s = .ok t := by decide +kernel
  have readEnvelope : ofJson ("\x7b\"txn\":" ++ s ++ "\x7d") = .ok (Envelope.unsigned t) := by
    decide +kernel
  have printed : perform .encode s = .ok h := by decide +kernel
  have printedEnvelope : perform .encodeSigned ("\x7b\"txn\":" ++ s ++ "\x7d") =
      .ok ("81a374786e" ++ h) := by
    decide +kernel
  refine ⟨printed, (conversions_agree s h).1 printed ?_, printedEnvelope,
    (conversions_agree _ _).2 printedEnvelope ?_⟩
  · intro u other
    obtain rfl : t = u := Except.ok.inj (read.symm.trans other)
    exact small
  · intro e other
    obtain rfl : Envelope.unsigned t = e := Except.ok.inj (readEnvelope.symm.trans other)
    have none : 0 < lengthBound := by decide
    exact { msig := none, lsig := ⟨none, none, none, nofun⟩, txn := small }

/-! ## Groups -/

theorem perform_assign_eq_ok : perform .assign s = .ok o ↔ ∃ ts us, readTransactions s = .ok ts ∧
    Group.assign ts = .ok us ∧ o = (Json.list (us.map toJson)).pretty := by
  unfold perform
  dsimp only
  rw [bind_eq_ok]
  constructor
  · rintro ⟨ts, read, printed⟩
    obtain ⟨us, assigned, printed⟩ := bind_eq_ok.mp printed
    cases printed
    exact ⟨ts, us, read, mapError_eq_ok.mp assigned, rfl⟩
  · rintro ⟨ts, us, read, assigned, rfl⟩
    refine ⟨ts, read, ?_⟩
    rw [mapError_eq_ok.mpr assigned, bind_ok]

theorem perform_group_eq_ok : perform .group s = .ok o ↔ ∃ ts d, readTransactions s = .ok ts ∧
    Group.compute ts = .ok d ∧ o = Hex.encode d.bytes := by
  unfold perform
  dsimp only
  rw [bind_eq_ok]
  constructor
  · rintro ⟨ts, read, printed⟩
    obtain ⟨d, computed, printed⟩ := bind_eq_ok.mp printed
    cases printed
    exact ⟨ts, d, read, mapError_eq_ok.mp computed, rfl⟩
  · rintro ⟨ts, d, read, computed, rfl⟩
    refine ⟨ts, read, ?_⟩
    rw [mapError_eq_ok.mpr computed, bind_ok]

/-- Members are printed whenever the digest of their group is, and for the same inputs. What is
printed holds the members of the input in their order, each with the digest and otherwise as it was,
and makes the same digest and the same members again. -/
theorem grouping_agrees (s : String) :
    ((∃ o, perform .assign s = .ok o) ↔ ∃ text, perform .group s = .ok text) ∧
    ∀ o, perform .assign s = .ok o → ∃ (ts : List Transaction) (d : Digest),
      readTransactions s = .ok ts ∧
      readTransactions o =
        .ok (ts.map fun t => { t with header := { t.header with group := d } }) ∧
      perform .group s = .ok (Hex.encode d.bytes) ∧ perform .group o = .ok (Hex.encode d.bytes) ∧
      perform .assign o = .ok o := by
  constructor
  · constructor
    · rintro ⟨o, printed⟩
      obtain ⟨ts, us, read, assigned, -⟩ := perform_assign_eq_ok.mp printed
      obtain ⟨d, computed, -⟩ := map_eq_ok.mp assigned
      exact ⟨_, perform_group_eq_ok.mpr ⟨ts, d, read, computed, rfl⟩⟩
    · rintro ⟨text, printed⟩
      obtain ⟨ts, d, read, computed, -⟩ := perform_group_eq_ok.mp printed
      exact ⟨_, perform_assign_eq_ok.mpr ⟨ts, _, read, map_eq_ok.mpr ⟨d, computed, rfl⟩, rfl⟩⟩
  · intro o printed
    obtain ⟨ts, us, read, assigned, rfl⟩ := perform_assign_eq_ok.mp printed
    obtain ⟨d, computed, rfl⟩ := map_eq_ok.mp assigned
    -- The members that were printed are those of the input, in another group.
    have regrouped := Group.regrouped_map ts d
    have back := readTransactions_pretty (ts.map fun t => t.withGroup d)
    refine ⟨ts, d, read, back, perform_group_eq_ok.mpr ⟨ts, d, read, computed, rfl⟩, ?_, ?_⟩
    · apply perform_group_eq_ok.mpr
      exact ⟨_, d, back, by rw [regrouped.compute_eq, computed], rfl⟩
    · apply perform_assign_eq_ok.mpr
      exact ⟨_, _, back, by rw [regrouped.assign_eq, assigned], rfl⟩

/-- A payment that says it belongs to some group and a key registration that belongs to none. -/
theorem grouping_agrees_mixed :
    let s := "[\x7b\"type\":\"pay\",\"fee\":5,\"group\":\"" ++ Hex.encode (List.replicate 32 7) ++
      "\"\x7d,\x7b\"type\":\"keyreg\"\x7d]"
    (∃ text, perform .group s = .ok text) ∧ ∃ o, perform .assign s = .ok o ∧ ∃ d : Digest,
      (readTransactions o).map (fun ts => ts.map fun t => t.header.group) = .ok [d, d] ∧
      (readTransactions o).map (fun ts => ts.map fun t => t.header.fee) = .ok [5, 0] ∧
      perform .group s = .ok (Hex.encode d.bytes) ∧ perform .group o = .ok (Hex.encode d.bytes) ∧
      perform .assign o = .ok o := by
  intro s
  have read : readTransactions s = .ok Group.mixed := by decide +kernel
  have some : ∃ text, perform .group s = .ok text := by
    have computed := @Group.compute_eq_ok Group.mixed nofun (by decide)
    exact ⟨_, perform_group_eq_ok.mpr ⟨_, _, read, computed, rfl⟩⟩
  obtain ⟨same, agree⟩ := grouping_agrees s
  obtain ⟨o, printed⟩ := same.mpr some
  obtain ⟨ts, d, read', back, digest, digestAgain, again⟩ := agree o printed
  obtain rfl : Group.mixed = ts := Except.ok.inj (read.symm.trans read')
  refine ⟨some, o, printed, d, ?_, ?_, digest, digestAgain, again⟩
  · rw [back]
    rfl
  · rw [back]
    rfl

end Cli

end LedgerCodec
