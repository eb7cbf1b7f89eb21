import LedgerCodec.Proofs.Txn.Reading
import LedgerCodec.Proofs.Record.Exact
/-!
# Fields of other types

A map may hold a field that its transaction's type does not have. Whether it does
no harm is judged by the value alone, with no regard to the type that has the
field: `decode_insert_foreign`. This agrees with that type's reader where it reads
the value at all, but for texts of zero bytes, which it takes for blobs.
-/

namespace LedgerCodec

open Wire

/-! ## Zeros as readers see them -/

/-- A text that has bytes, all of them zero. -/
def Wire.Value.ZeroText (v : Value) : Prop :=
  ∃ s, v = .str s ∧ s.isEmpty = false ∧ (utf8 s).allZero = true

/-- Neither the value nor an entry of it is a text of zero bytes. -/
def Wire.Value.Fair (v : Value) : Prop :=
  ¬ v.ZeroText ∧ ∀ es, v = .map es → ∀ e ∈ es, ¬ e.2.ZeroText

/-- Of fair values, a reader reads exactly those that are zero as it reads nothing. -/
def Reader.AgreesOnZero {τ : Type} (fair : Value → Prop) (r : Reader τ) : Prop :=
  ∀ (key : String) (v : Value) (x : τ), fair v → r.read key v = .ok x →
    (v.isZero = true ↔ r.absent key = .ok x)

namespace Reader

variable {fair : Value → Prop}

theorem agreesOnZero_uint : uint.AgreesOnZero fair := by
  intro key v x _ h
  obtain rfl := Field.uint_read_ok h
  exact ((Kind.lawful_uint64 0).absent_iff key x).symm

theorem agreesOnZero_narrow {τ : Type} (w : Width τ) :
    (narrow w.bound w.ofNat).AgreesOnZero fair := by
  intro key v x _ h
  obtain ⟨n, rfl, small, rfl⟩ := Field.narrow_read_ok h
  have zero := (Kind.lawful_narrow 0 w).absent_iff key (w.ofNat n.toNat)
  have isZero : (Kind.narrow w).writer.isZero (w.ofNat n.toNat) = (n == 0) :=
    congrArg (· == 0) (w.toUInt64_ofNat small)
  rw [isZero] at zero
  exact zero.symm

theorem agreesOnZero_bool : bool.AgreesOnZero fair := by
  intro key v x _ h
  cases v with
  | bool b =>
    obtain rfl : b = x := Except.ok.inj h
    exact ((Kind.lawful_bool 0).absent_iff key b).symm
  | _ => cases h

theorem agreesOnZero_text : text.AgreesOnZero fair := by
  intro key v x _ h
  obtain rfl := Kind.text_read_ok h
  exact ((Kind.lawful_text 0).absent_iff key x).symm

theorem agreesOnZero_fixed {role : Role} (texts : ∀ {v}, fair v → ¬ v.ZeroText) :
    (fixed role).AgreesOnZero fair := by
  intro key v x plain h
  obtain ⟨s, hs, rfl⟩ := map_eq_ok.mp h
  obtain ⟨bs, hbs, hs⟩ := bind_eq_ok.mp hs
  -- The bytes decide, and a text that is not empty has others than zeros.
  have bytes : v.isZero = bs.allZero := by
    rcases Kind.blob_read_ok hbs with rfl | ⟨t, rfl, rfl⟩ | ⟨rfl, rfl⟩
    · rfl
    · show t.isEmpty = (utf8 t).allZero
      cases empty : t.isEmpty with
      | true =>
        rw [String.isEmpty_iff.mp empty]
        rfl
      | false => exact (Bool.eq_false_iff.mpr fun zero => texts plain ⟨t, rfl, empty, zero⟩).symm
    · rfl
  have zero : bs.allZero = s.isZero := by
    split at hs
    · rename_i empty
      cases hs
      rw [List.isEmpty_iff.mp empty, Sized.isZero_iff.mpr rfl]
      rfl
    · split at hs
      · rename_i found
        cases hs
        rw [← Sized.bytes_of_ofBytes? found]
        rfl
      · cases hs
  rw [bytes, zero]
  exact ((Kind.lawful_fixed 0 role).absent_iff key ⟨s⟩).symm

end Reader

/-! ## Records as readers see them -/

namespace Fields

variable {σ : Type} {l : Fields σ} {fair : Value → Prop}

/-- A row that was read from fair entries is that of no entries exactly if all of them are zero. -/
theorem entriesZero_iff_of_readBy (agrees : l.All fun f => f.kind.reader.AgreesOnZero fair)
    {es : List (String × Value)} (distinct : (es.map Prod.fst).Nodup)
    (known : ∀ e ∈ es, e.1 ∈ l.keys) (plain : ∀ e ∈ es, fair e.2) {x : σ}
    (h : (l.readBy fun k => (⟨es⟩ : Pending).find? k) = .ok x) :
    (∀ e ∈ es, e.2.isZero = true) ↔ l.readBy (fun _ => none) = .ok x := by
  have fields := (agrees.allOf x).and (readBy_eq_ok.mp h)
  have judged {key : String} {v : Value} (held : (⟨es⟩ : Pending).find? key = some v) :
      (key, v) ∈ es := mem_of_lookup (Pending.find?_eq_some.mp held).1
  rw [readBy_eq_ok]
  constructor
  · intro zero
    refine fields.imp fun f y hy => ?_
    obtain ⟨agree, read⟩ := hy
    cases held : (⟨es⟩ : Pending).find? f.key with
    | none =>
      rw [held] at read
      exact read
    | some v =>
      rw [held] at read
      exact (agree _ _ _ (plain _ (judged held)) read).mp (zero _ (judged held))
  · intro none e he
    by_cases nothing : e.2 = .nil
    · rw [nothing]
      rfl
    · have held : (⟨es⟩ : Pending).find? e.1 = some e.2 :=
        Pending.find?_eq_some.mpr ⟨(lookup_eq_some distinct).mpr he, nothing⟩
      refine (fields.and none).of_mem_collect (known e he) ?_
      rintro τ f y same ⟨⟨agree, read⟩, absent⟩
      rw [same, held] at read
      rw [same] at absent
      exact (agree _ _ _ (plain e he) read).mpr absent

end Fields

/-- A record inside a record is read as zero exactly from nothing but zeros. -/
theorem Record.agreesOnZero_nested {ρ : Type} [Record ρ] {levels : Nat} {fair inside : Value → Prop}
    (l : (fields (ρ := ρ)).Lawful levels)
    (agrees : (fields (ρ := ρ)).All fun f => f.kind.reader.AgreesOnZero inside)
    (entries : ∀ {es}, fair (.map es) → ∀ e ∈ es, inside e.2) :
    (Reader.nested : Reader ρ).AgreesOnZero fair := by
  intro key v x plain h
  obtain ⟨es, hv, distinct, keys, read⟩ := of_decodeValue l.distinct h
  rcases hv with rfl | ⟨rfl, -⟩
  · have none : decodeValue key (.map []) = .ok x ↔
        (fields (ρ := ρ)).readBy (fun _ => none) = .ok (row x) := by
      rw [(Record.lawful l).decodeValue_empty key x, Fields.readBy_none_iff l.kinds,
        Entries.isEmpty, List.isEmpty_iff, entriesOf_list]
    exact Value.entriesZero_iff.trans <|
      (Fields.entriesZero_iff_of_readBy agrees distinct keys (entries plain) read).trans none.symm
  · -- Nothing reads as the map without entries, which is what an absent record reads as.
    exact iff_of_true rfl h

/-! ## Payloads as readers see them -/

namespace AssetParams

theorem agreesOnZero : (Record.fields (ρ := AssetParams)).All fun f =>
    f.kind.reader.AgreesOnZero fun v => ¬ v.ZeroText := by
  have fixed {role : Role} : (Reader.fixed role).AgreesOnZero fun v => ¬ v.ZeroText :=
    Reader.agreesOnZero_fixed id
  have text : Reader.text.AgreesOnZero fun v => ¬ v.ZeroText := Reader.agreesOnZero_text
  exact ⟨Reader.agreesOnZero_uint, Reader.agreesOnZero_narrow _, Reader.agreesOnZero_bool, text,
    text, text, fixed, fixed, fixed, fixed, fixed⟩

end AssetParams

namespace Payload

/-- The payload of a type in which no field is set. -/
def blank : TxnType → Payload
  | .payment => payment default
  | .keyRegistration => keyRegistration default
  | .assetConfig => assetConfig default
  | .assetTransfer => assetTransfer default
  | .assetFreeze => assetFreeze default

theorem agreesOnZero (t : TxnType) :
    (fieldsOf t).All fun f => f.kind.reader.AgreesOnZero Value.Fair := by
  have fixed {role : Role} : (Reader.fixed role).AgreesOnZero Value.Fair :=
    Reader.agreesOnZero_fixed And.left
  cases t with
  | payment => exact ⟨fixed, Reader.agreesOnZero_uint, fixed⟩
  | keyRegistration =>
    exact ⟨fixed, fixed, Reader.agreesOnZero_uint, Reader.agreesOnZero_uint,
      Reader.agreesOnZero_uint⟩
  | assetConfig =>
    exact ⟨Reader.agreesOnZero_uint, Record.agreesOnZero_nested (@AssetParams.lawful_fields 0)
      AssetParams.agreesOnZero fun fair => fair.2 _ rfl⟩
  | assetTransfer =>
    exact ⟨Reader.agreesOnZero_uint, Reader.agreesOnZero_uint, fixed, fixed, fixed⟩
  | assetFreeze => exact ⟨fixed, Reader.agreesOnZero_uint, Reader.agreesOnZero_bool⟩

theorem ofRow_inj {t : TxnType} {r r' : Row t} (h : ofRow t r = ofRow t r') : r = r' := by
  have rows {ρ : Type} [Record ρ] {r r' : Record.Row ρ}
      (h : (Record.ofRow r : ρ) = Record.ofRow r') : r = r' := by
    rw [← Record.row_ofRow (ρ := ρ) r, h, Record.row_ofRow]
  cases t with
  | payment => exact rows (Payload.payment.inj h)
  | keyRegistration => exact rows (Payload.keyRegistration.inj h)
  | assetConfig => exact rows (Payload.assetConfig.inj h)
  | assetTransfer => exact rows (Payload.assetTransfer.inj h)
  | assetFreeze => exact rows (Payload.assetFreeze.inj h)

theorem readBy_none_iff {t : TxnType} {r : Row t} :
    (fieldsOf t).readBy (fun _ => none) = .ok r ↔ ofRow t r = blank t := by
  obtain ⟨zero, read, eq⟩ : ∃ zero, (fieldsOf t).readBy (fun _ => none) = .ok zero ∧
      ofRow t zero = blank t := by
    cases t <;> exact ⟨_, rfl, rfl⟩
  rw [read, ← eq, Except.ok.injEq]
  exact ⟨fun same => same ▸ rfl, fun same => (ofRow_inj same).symm⟩

/-- A fair value that the type with its key reads is zero exactly if it is read as zero. -/
theorem isZero_iff_of_read {t : TxnType} {key : String} {v : Value} {p : Payload} {left : Pending}
    (known : key ∈ keysOf t) (fair : v.Fair) (h : read t ⟨[(key, v)]⟩ = .ok (p, left)) :
    v.isZero = true ↔ p = blank t := by
  rw [read_eq] at h
  obtain ⟨r, hr, eq⟩ := map_eq_ok.mp h
  obtain rfl : ofRow t r = p := congrArg Prod.fst eq
  have judged := Fields.entriesZero_iff_of_readBy (agreesOnZero t) (by simp)
    (by simpa [← keysOf_eq] using known) (by simpa using fair) hr
  rw [readBy_none_iff] at judged
  simpa using judged

end Payload

/-! ## Transactions -/

namespace Transaction

variable {before after : List (String × Value)} {key root : String} {v : Value} {t : Transaction}

theorem not_mem_keysFor_of_foreign {type : TxnType} (known : Payload.isPayloadKey key = true)
    (other : key ∉ Payload.keysOf type) : key ∉ keysFor type := by
  obtain ⟨u, hk⟩ := Payload.isPayloadKey_iff.mp known
  refine not_mem_keysFor (fun same => other ?_) hk
  rwa [same] at hk

/-- A transaction depends on its own keys only. -/
theorem readBy_congr {held held' : String → Option Value} (h : readBy held = .ok t)
    (same : ∀ key ∈ keysFor t.type, held' key = held key) : readBy held' = .ok t := by
  obtain ⟨header, tag, payload⟩ := readBy_eq_ok.mp h
  refine readBy_eq_ok.mpr ⟨?_, ?_, ?_⟩
  · rw [← header]
    exact Fields.readBy_congr fun key hk => same key (mem_keysFor.mpr (.inl hk))
  · rw [same _ (mem_keysFor.mpr (.inr (.inl rfl))), tag]
  · rw [← payload]
    refine Fields.readBy_congr fun key hk => same key (mem_keysFor.mpr (.inr (.inr ?_)))
    rwa [Payload.keysOf_eq]

/-- Among zeros of other types, one entry decides. -/
theorem checkForeign_of_others {type : TxnType} {es : List (String × Value)}
    (here : (key, v) ∈ es) (known : Payload.isPayloadKey key = true)
    (others : ∀ e ∈ es, e ≠ (key, v) → Payload.isPayloadKey e.1 = true ∧ e.2.isZero = true) :
    checkForeign type es =
      if v.isZero then .ok () else .error (.fieldNotAllowed key type) := by
  cases zero : v.isZero with
  | true =>
    refine checkForeign_eq_ok.mpr fun e he => ?_
    by_cases same : e = (key, v)
    · rw [same]
      exact ⟨known, zero⟩
    · exact others e he same
  | false =>
    have keys : ∀ e ∈ es, Payload.isPayloadKey e.1 = true := by
      intro e he
      by_cases same : e = (key, v)
      · rw [same]
        exact known
      · exact (others e he same).1
    obtain ⟨e, he, nonzero, refused⟩ := checkForeign_eq_error keys ⟨_, here, zero⟩
    -- Whatever is refused is no zero, so it is this entry.
    by_cases same : e = (key, v)
    · rw [refused, same]
      rfl
    · rw [(others e he same).2] at nonzero
      cases nonzero

/-- A field of another type, added to a map, does no harm if it is zero and is refused if not. -/
theorem decodeValue_insert (h : decodeValue root (.map (before ++ after)) = .ok t)
    (known : Payload.isPayloadKey key = true) (other : key ∉ Payload.keysOf t.type)
    (fresh : key ∉ (before ++ after).map Prod.fst) :
    decodeValue root (.map (before ++ (key, v) :: after)) =
      if v.isZero then .ok t else .error (.fieldNotAllowed key t.type) := by
  obtain ⟨es, hes, distinct, read, foreign⟩ := of_decodeValue h
  cases hes
  have perm : (before ++ (key, v) :: after).Perm ((key, v) :: (before ++ after)) :=
    List.perm_middle
  have distinct' : ((before ++ (key, v) :: after).map Prod.fst).Nodup :=
    (perm.map Prod.fst).nodup_iff.mpr (List.nodup_cons.mpr ⟨fresh, distinct⟩)
  have apart := not_mem_keysFor_of_foreign known other
  -- The keys of the transaction hold what they held before.
  have read' : (readBy fun k => (⟨before ++ (key, v) :: after⟩ : Pending).find? k) = .ok t := by
    refine readBy_congr read fun k hk => ?_
    have ne : (k == key) = false := by
      rw [beq_eq_false_iff_ne]
      rintro rfl
      exact apart hk
    unfold Pending.find?
    rw [lookup_eq_of_perm distinct' perm, List.lookup_cons, ne]
  have here : (key, v) ∈ Transaction.foreign t.type (before ++ (key, v) :: after) :=
    mem_foreign.mpr ⟨perm.mem_iff.mpr List.mem_cons_self, apart⟩
  have others : ∀ e ∈ Transaction.foreign t.type (before ++ (key, v) :: after), e ≠ (key, v) →
      Payload.isPayloadKey e.1 = true ∧ e.2.isZero = true := by
    intro e he ne
    obtain ⟨he, own⟩ := mem_foreign.mp he
    exact foreign e ((List.mem_cons.mp (perm.mem_iff.mp he)).resolve_left ne) own
  rw [decodeValue_map root distinct', read', bind_ok, checkForeign_of_others here known others]
  cases v.isZero <;> rfl

/-- A field of another type, added to a map that holds a transaction, is passed over if its value is
zero and refused otherwise. Where the type that has the field reads the value, and takes no text of
zero bytes for a blob, the field is passed over exactly if it reads as nothing set. -/
theorem decode_insert_foreign {bs bs' : Bytes} (parsed : parse bs = .ok (.map (before ++ after)))
    (parsed' : parse bs' = .ok (.map (before ++ (key, v) :: after))) (decoded : decode bs = .ok t)
    (known : Payload.isPayloadKey key = true) (other : key ∉ Payload.keysOf t.type)
    (fresh : key ∉ (before ++ after).map Prod.fst) :
    decode bs' = (if v.isZero then .ok t else .error (.fieldNotAllowed key t.type)) ∧
      ∀ u p left, key ∈ Payload.keysOf u → v.Fair → Payload.read u ⟨[(key, v)]⟩ = .ok (p, left) →
        (decode bs' = .ok t ↔ p = Payload.blank u) := by
  have read : decodeValue rootKey (.map (before ++ after)) = .ok t := by
    rw [decode, parsed] at decoded
    exact decoded
  have judged : decode bs' =
      if v.isZero then .ok t else .error (.fieldNotAllowed key t.type) := by
    rw [decode, parsed']
    exact decodeValue_insert read known other fresh
  refine ⟨judged, fun u p left hk fair owned => ?_⟩
  rw [judged, ← Payload.isZero_iff_of_read hk fair owned]
  cases v.isZero <;> simp

/-- A payment with a fee. -/
def feePayment : Transaction :=
  ⟨{ (default : Header) with fee := 5 }, .payment default⟩

/-- The payment, its tag first. -/
def feeBytes : Bytes :=
  [0x82, 0xa4, 0x74, 0x79, 0x70, 0x65, 0xa3, 0x70, 0x61, 0x79, 0xa3, 0x66, 0x65, 0x65, 0x05]

/-- The payment with the asset of a freeze, which is zero. -/
def freezingFeeBytes : Bytes :=
  [0x83, 0xa4, 0x74, 0x79, 0x70, 0x65, 0xa3, 0x70, 0x61, 0x79,
   0xa4, 0x66, 0x61, 0x69, 0x64, 0x00, 0xa3, 0x66, 0x65, 0x65, 0x05]

/-- The payment with the asset of a transfer, which is `false`. -/
def transferringFeeBytes : Bytes :=
  [0x83, 0xa4, 0x74, 0x79, 0x70, 0x65, 0xa3, 0x70, 0x61, 0x79,
   0xa4, 0x78, 0x61, 0x69, 0x64, 0xc2, 0xa3, 0x66, 0x65, 0x65, 0x05]

/-- The asset of a freeze does no harm to a payment if it is zero, and a freeze reads it as nothing
set. -/
theorem decode_insert_freezing :
    parse feeBytes = .ok (.map ([("type", .str "pay")] ++ [("fee", .uint 5)])) ∧
      parse freezingFeeBytes =
        .ok (.map ([("type", .str "pay")] ++ ("faid", .uint 0) :: [("fee", .uint 5)])) ∧
      decode feeBytes = .ok feePayment ∧ Payload.isPayloadKey "faid" = true ∧
      "faid" ∉ Payload.keysOf feePayment.type ∧ decode freezingFeeBytes = .ok feePayment ∧
      "faid" ∈ Payload.keysOf .assetFreeze ∧ (Value.uint 0).Fair ∧
      ∃ left, Payload.read .assetFreeze ⟨[("faid", .uint 0)]⟩ =
        .ok (Payload.blank .assetFreeze, left) := by
  have parsed : parse feeBytes =
      .ok (.map ([("type", .str "pay")] ++ [("fee", .uint 5)])) := by rfl
  have parsed' : parse freezingFeeBytes =
      .ok (.map ([("type", .str "pay")] ++ ("faid", .uint 0) :: [("fee", .uint 5)])) := by rfl
  have decoded : decode feeBytes = .ok feePayment := by decide
  have known : Payload.isPayloadKey "faid" = true := by decide
  have other : "faid" ∉ Payload.keysOf feePayment.type := by decide
  have owner : "faid" ∈ Payload.keysOf .assetFreeze := by decide
  have fair : (Value.uint 0).Fair := ⟨nofun, nofun⟩
  obtain ⟨judged, agrees⟩ := decode_insert_foreign parsed parsed' decoded known other
    (by decide)
  obtain ⟨p, left, read⟩ : ∃ p left,
      Payload.read .assetFreeze ⟨[("faid", .uint 0)]⟩ = .ok (p, left) := ⟨_, _, rfl⟩
  have blank := (agrees .assetFreeze p left owner fair read).mp judged
  exact ⟨parsed, parsed', decoded, known, other, judged, owner, fair, left, blank ▸ read⟩

/-- A field of another type may be passed over although that type does not read its value: `false`
does no harm to a payment where a transfer has a number. -/
theorem decode_unread_foreign :
    decode feeBytes = .ok feePayment ∧ decode transferringFeeBytes = .ok feePayment ∧
      parse transferringFeeBytes =
        .ok (.map ([("type", .str "pay")] ++ ("xaid", .bool false) :: [("fee", .uint 5)])) ∧
      "xaid" ∉ Payload.keysOf feePayment.type ∧ "xaid" ∈ Payload.keysOf .assetTransfer ∧
      ∀ p left, Payload.read .assetTransfer ⟨[("xaid", .bool false)]⟩ ≠ .ok (p, left) := by
  refine ⟨by decide, by decide, by rfl, by decide, by decide, ?_⟩
  intro p left read
  cases read

end Transaction

end LedgerCodec
