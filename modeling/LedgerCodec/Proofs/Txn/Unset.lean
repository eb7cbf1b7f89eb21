import LedgerCodec.Proofs.Record.Unset
import LedgerCodec.Proofs.Txn.RoundTrip
/-!
# What is not set

Three notions of "not set" meet here: what the encoder leaves out, the default
value of each type, and the tests `isBlank`, `isSigned`, `isCreation` and
`isDestruction`. They are one notion: `unset_agrees`.
-/

namespace LedgerCodec

open Wire

theorem Fixed.isZero_iff {role : Role} {x : Fixed role} : x.isZero = true ↔ x = default := by
  rw [isZero, Sized.isZero_iff]
  cases x
  exact (Fixed.mk.injEq _ _).to_iff.symm

/-! ## Blank signatures -/

theorem Multisig.isBlank_iff {m : Multisig} : m.isBlank = true ↔ m = default := by
  constructor
  · intro blank
    rw [isBlank, Bool.and_eq_true, Bool.and_eq_true, beq_iff_eq, beq_iff_eq,
      List.isEmpty_iff] at blank
    obtain ⟨⟨version, threshold⟩, cosigners⟩ := blank
    cases m
    subst version threshold cosigners
    rfl
  · rintro rfl
    rfl

theorem LogicSig.isBlank_iff {l : LogicSig} : l.isBlank = true ↔ l = default := by
  constructor
  · intro blank
    rw [isBlank, Bool.and_eq_true, Bool.and_eq_true, Bool.and_eq_true, List.isEmpty_iff,
      Fixed.isZero_iff, Multisig.isBlank_iff, List.isEmpty_iff] at blank
    obtain ⟨⟨⟨logic, sig⟩, msig⟩, args⟩ := blank
    cases l
    subst logic sig msig args
    rfl
  · rintro rfl
    rfl

/-- A blank multisignature is one that the encoder leaves out. -/
theorem Multisig.isBlank_eq (m : Multisig) : m.isBlank = (entriesOf m).isEmpty := by
  rw [Bool.eq_iff_iff, isBlank_iff]
  exact (Record.isEmpty_iff (@lawful_fields 0) rfl m).symm

theorem LogicSig.isBlank_eq (l : LogicSig) : l.isBlank = (entriesOf l).isEmpty := by
  rw [Bool.eq_iff_iff, isBlank_iff]
  exact (Record.isEmpty_iff (@lawful_fields 0) rfl l).symm

/-! ## Keys on the wire -/

/-- Sorting keeps the keys. -/
theorem mem_keys_sortByKey {es : List (String × Value)} {key : String} :
    key ∈ (sortByKey es).map Prod.fst ↔ key ∈ es.map Prod.fst :=
  ((sortByKey_perm es).map Prod.fst).mem_iff

namespace Envelope

variable (e : Envelope)

theorem mem_keys {key : String} : key ∈ (entriesOf e).list.map Prod.fst ↔
    key = "sig" ∧ e.sig.isZero = false ∨ key = "msig" ∧ e.msig.isBlank = false ∨
      key = "lsig" ∧ e.lsig.isBlank = false ∨ key = "txn" ∧ (entriesOf e.txn).isEmpty = false ∨
        key = "sgnr" ∧ e.authAddr.isZero = false := by
  rw [Record.entriesOf_list, Multisig.isBlank_eq, LogicSig.isBlank_eq]
  exact Fields.mem_keys_both.trans <| or_congr Fields.mem_keys_field <|
    Fields.mem_keys_both.trans <| or_congr Fields.mem_keys_field <|
    Fields.mem_keys_both.trans <| or_congr Fields.mem_keys_field <|
    Fields.mem_keys_both.trans <| or_congr Fields.mem_keys_field Fields.mem_keys_field

theorem isSigned_iff_key :
    e.isSigned = true ↔
      ∃ key ∈ ["sig", "msig", "lsig"], key ∈ (entriesOf e).list.map Prod.fst := by
  simp [mem_keys, isSigned, or_assoc]

end Envelope

namespace AssetConfig

variable (c : AssetConfig)

theorem mem_keys {key : String} : key ∈ (entriesOf c).list.map Prod.fst ↔
    key = "caid" ∧ (c.configAsset == 0) = false ∨
      key = "apar" ∧ (entriesOf c.params).isEmpty = false := by
  rw [Record.entriesOf_list]
  exact Fields.mem_keys_both.trans (or_congr Fields.mem_keys_field Fields.mem_keys_field)

theorem isCreation_iff_key :
    c.isCreation = true ↔ "caid" ∉ (entriesOf c).list.map Prod.fst := by
  simp [mem_keys, isCreation]

theorem isDestruction_iff_key :
    c.isDestruction = true ↔
      "caid" ∈ (entriesOf c).list.map Prod.fst ∧ "apar" ∉ (entriesOf c).list.map Prod.fst := by
  have params : (c.params == default) = (entriesOf c.params).isEmpty := by
    rw [Bool.eq_iff_iff, beq_iff_eq]
    exact (Record.isEmpty_iff (@AssetParams.lawful_fields 0) rfl c.params).symm
  simp [mem_keys, isDestruction, params]

end AssetConfig

/-! ## Values that are written as the empty map -/

/-- The value of a type in which nothing is set. A transaction always has a type, and so has the one
in an envelope. -/
def CanonicalType.unset? : (t : CanonicalType) → Option t.Val
  | header => some (default : Header)
  | payment => some (default : Payment)
  | keyRegistration => some (default : KeyRegistration)
  | assetParams => some (default : AssetParams)
  | assetConfig => some (default : AssetConfig)
  | assetTransfer => some (default : AssetTransfer)
  | assetFreeze => some (default : AssetFreeze)
  | cosigner => some (default : Cosigner)
  | multisig => some (default : Multisig)
  | logicSig => some (default : LogicSig)
  | group => some (⟨[]⟩ : Group)
  | transaction => none
  | envelope => none

/-- The tag of its type is an entry of every transaction. -/
theorem Transaction.isEmpty_entriesOf (t : Transaction) : (entriesOf t).isEmpty = false := by
  rw [Entries.isEmpty, entriesOf_list]
  simp [entries]

/-- The transaction is an entry of every envelope. -/
theorem Envelope.isEmpty_entriesOf (e : Envelope) : (entriesOf e).isEmpty = false := by
  have carried : "txn" ∈ (entriesOf e).list.map Prod.fst := by
    simp [mem_keys, Transaction.isEmpty_entriesOf]
  rw [Entries.isEmpty, List.isEmpty_eq_false_iff]
  intro none
  rw [none] at carried
  cases carried

theorem encode_ne_empty {α : Type} [Canonical α] {x : α} (some : (entriesOf x).isEmpty = false) :
    encode x ≠ [0x80] := by
  intro written
  rw [Entries.toBytes_eq_empty.mp written] at some
  cases some

theorem CanonicalType.encode_eq_empty_iff (t : CanonicalType) (x : t.Val) :
    encode x = [0x80] ↔ t.unset? = some x := by
  have plain {ρ : Type} [Record ρ] {levels : Nat} {unset : ρ}
      (l : (Record.fields (ρ := ρ)).Lawful levels) (none : (entriesOf unset).isEmpty = true)
      (x : ρ) : encode x = [0x80] ↔ some unset = some x := by
    rw [Record.encode_eq_empty_iff l none, Option.some.injEq, eq_comm]
  cases t with
  | header => exact plain (@Header.lawful_fields 0) rfl x
  | payment => exact plain (@Payment.lawful_fields 0) rfl x
  | keyRegistration => exact plain (@KeyRegistration.lawful_fields 0) rfl x
  | assetParams => exact plain (@AssetParams.lawful_fields 0) rfl x
  | assetConfig => exact plain (@AssetConfig.lawful_fields 0) rfl x
  | assetTransfer => exact plain (@AssetTransfer.lawful_fields 0) rfl x
  | assetFreeze => exact plain (@AssetFreeze.lawful_fields 0) rfl x
  | cosigner => exact plain (@Cosigner.lawful_fields 0) rfl x
  | multisig => exact plain (@Multisig.lawful_fields 0) rfl x
  | logicSig => exact plain (@LogicSig.lawful_fields 0) rfl x
  | group => exact plain (@Group.lawful_fields 0) rfl x
  | transaction =>
    exact ⟨fun written => absurd written (encode_ne_empty (Transaction.isEmpty_entriesOf x)), nofun⟩
  | envelope =>
    exact ⟨fun written => absurd written (encode_ne_empty (Envelope.isEmpty_entriesOf x)), nofun⟩

/-! ## All notions together -/

/-- A value is written as the empty map exactly if nothing in it is set, and a signature is blank
exactly if it is this value. An envelope is signed exactly if its bytes hold one of the three keys
of signatures, an asset is created exactly if none is named, and destroyed exactly if one is named
and no parameters are there. -/
theorem unset_agrees :
    (∀ (t : CanonicalType) (x : t.Val), encode x = [0x80] ↔ t.unset? = some x) ∧
    (∀ m : Multisig, m.isBlank = true ↔ m = default) ∧
    (∀ l : LogicSig, l.isBlank = true ↔ l = default) ∧
    (∀ e : Envelope, e.Small → ∃ es, parse (encode e) = .ok (.map es) ∧
      (e.isSigned = true ↔ ∃ key ∈ ["sig", "msig", "lsig"], key ∈ es.map Prod.fst)) ∧
    ∀ c : AssetConfig, ∃ es, encode c = (Value.map es).write ∧
      (c.params.Small → parse (encode c) = .ok (.map es)) ∧
      (c.isCreation = true ↔ "caid" ∉ es.map Prod.fst) ∧
      (c.isDestruction = true ↔ "caid" ∈ es.map Prod.fst ∧ "apar" ∉ es.map Prod.fst) := by
  refine ⟨CanonicalType.encode_eq_empty_iff, fun m => Multisig.isBlank_iff,
    fun l => LogicSig.isBlank_iff, fun e small => ?_, fun c => ?_⟩
  · refine ⟨_, parse_write (@Envelope.Small.fits 27 e small), ?_⟩
    simp only [mem_keys_sortByKey]
    exact e.isSigned_iff_key
  · refine ⟨_, rfl, fun small => ?_, ?_, ?_⟩
    · exact parse_write (Record.fits_toValue (@AssetConfig.lawful_fields 30)
        (Fields.fits_entries (AssetConfig.fit small)))
    · rw [mem_keys_sortByKey]
      exact c.isCreation_iff_key
    · rw [mem_keys_sortByKey, mem_keys_sortByKey]
      exact c.isDestruction_iff_key

/-- A logic signature without a program is set if it has an argument, even one without bytes, and
signs a transaction. An asset is destroyed that is named and has no parameters. -/
theorem unset_agrees_argument :
    let lsig : LogicSig := ⟨[], default, default, [[]]⟩
    let e : Envelope := ⟨default, default, lsig, ⟨default, .payment default⟩, default⟩
    let c : AssetConfig := ⟨7, default⟩
    encode lsig ≠ [0x80] ∧ lsig.isBlank = false ∧ encode c.params = [0x80] ∧
      (e.Small ∧ ∃ es, parse (encode e) = .ok (.map es) ∧
        ∃ key ∈ ["sig", "msig", "lsig"], key ∈ es.map Prod.fst) ∧
      c.params.Small ∧ ∃ es, parse (encode c) = .ok (.map es) ∧
        "caid" ∈ es.map Prod.fst ∧ "apar" ∉ es.map Prod.fst := by
  intro lsig e c
  have none : 0 < lengthBound := by decide
  have argument : ∀ bs ∈ lsig.args, bs.length < lengthBound := by decide
  have smallE : e.Small :=
    { msig := none
      lsig := ⟨none, none, by decide, argument⟩
      txn := ⟨⟨none, none⟩, trivial⟩ }
  have smallC : c.params.Small := ⟨none, none, none⟩
  obtain ⟨empty, -, blank, signed, configured⟩ := unset_agrees
  obtain ⟨es, readE, keys⟩ := signed e smallE
  obtain ⟨fs, -, readC, -, destroyed⟩ := configured c
  have set : lsig ≠ default := by decide
  refine ⟨fun written => ?_, ?_, (empty .assetParams c.params).mpr rfl,
    ⟨smallE, es, readE, keys.mp rfl⟩, smallC, fs, readC smallC, destroyed.mp (by decide)⟩
  · exact set (Option.some.inj ((empty .logicSig lsig).mp written)).symm
  · exact Bool.eq_false_iff.mpr fun is => set ((blank lsig).mp is)

end LedgerCodec
