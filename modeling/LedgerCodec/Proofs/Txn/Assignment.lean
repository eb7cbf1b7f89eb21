import LedgerCodec.Proofs.Record.Spelling
import LedgerCodec.Proofs.Txn.CanonicalForm
/-!
# Values for all fields

An `Assignment` has a value for each field that some transaction has. It is set
down with a type as a wire map (`Assignment.wireSlots`) or as a JSON record
(`Assignment.jsonSlots`), the parameters of an asset nested in both, each field
under the name and the key that `Assignment.keyPairs` has for it. A field that is
not zero is set: `Fields.Sets`.
-/

namespace LedgerCodec

open Wire

/-! ## Fields that are set -/

namespace Fields

variable {σ : Type} {l : Fields σ} {x : σ} {key : String}

/-- The field with a key is not zero. -/
def Sets (l : Fields σ) (x : σ) (key : String) : Prop :=
  ¬ l.AllOf (fun f y => f.key = key → f.absent = some y) x

theorem mem_keys_of_sets (h : l.Sets x key) : key ∈ l.keys := by
  refine Classical.byContradiction fun other => h ?_
  refine ((l.all_mem_collect fun f => f.key).allOf x).imp fun f y known same => ?_
  exact absurd (same ▸ known) other

/-- A field is set exactly if its key holds something that is not zero. -/
theorem sets_iff_of_zeroAs {held : String → Option Value} (zero : l.AllOf (ZeroAs held) x)
    (known : key ∈ l.keys) : l.Sets x key ↔ (held key).all Value.isZero = false := by
  constructor
  · intro set
    refine Bool.eq_false_iff.mpr fun none => set ?_
    refine zero.imp fun f y hy same => hy.mp ?_
    rw [show f.key = key from same, none]
  · intro some all
    refine (zero.and all).of_mem_collect known fun f y same hy => ?_
    have none := hy.1.mpr (hy.2 same)
    rw [show f.key = key from same, some] at none
    cases none

/-- A field is set exactly if it is pushed. -/
theorem mem_keys_entries_iff {levels : Nat} (kinds : l.All fun f => f.kind.Lawful levels)
    (optional : l.All Field.Optional) : key ∈ (l.entries x).map Prod.fst ↔ l.Sets x key := by
  induction l with
  | field f =>
    have zero := optional.absent_iff kinds (y := x)
    rw [entries, Sets, Layout.AllOf, zero]
    by_cases h : f.kind.writer.isZero x = true
    · simp [h]
    · simp [h, eq_comm]
  | both first second ih₁ ih₂ =>
    rw [entries, List.map_append, List.mem_append, ih₁ kinds.1 optional.1, ih₂ kinds.2 optional.2]
    exact Classical.not_and_iff_not_or_not.symm

end Fields

/-! ## The fields of the payloads -/

theorem Header.optional_fields : (Record.fields (ρ := Header)).All Field.Optional :=
  ⟨⟨_, rfl, rfl⟩, ⟨_, rfl, rfl⟩, ⟨_, rfl, rfl⟩, ⟨_, rfl, rfl⟩, ⟨_, rfl, rfl⟩, ⟨_, rfl, rfl⟩,
    ⟨_, rfl, rfl⟩, ⟨_, rfl, rfl⟩, ⟨_, rfl, rfl⟩, ⟨_, rfl, rfl⟩⟩

theorem AssetParams.optional_fields : (Record.fields (ρ := AssetParams)).All Field.Optional :=
  ⟨⟨_, rfl, rfl⟩, ⟨_, rfl, rfl⟩, ⟨_, rfl, rfl⟩, ⟨_, rfl, rfl⟩, ⟨_, rfl, rfl⟩, ⟨_, rfl, rfl⟩,
    ⟨_, rfl, rfl⟩, ⟨_, rfl, rfl⟩, ⟨_, rfl, rfl⟩, ⟨_, rfl, rfl⟩, ⟨_, rfl, rfl⟩⟩

theorem Payload.optional_fieldsOf (t : TxnType) : (Payload.fieldsOf t).All Field.Optional := by
  cases t with
  | payment => exact ⟨⟨_, rfl, rfl⟩, ⟨_, rfl, rfl⟩, ⟨_, rfl, rfl⟩⟩
  | keyRegistration =>
    exact ⟨⟨_, rfl, rfl⟩, ⟨_, rfl, rfl⟩, ⟨_, rfl, rfl⟩, ⟨_, rfl, rfl⟩, ⟨_, rfl, rfl⟩⟩
  | assetConfig => exact ⟨⟨_, rfl, rfl⟩, ⟨_, rfl, rfl⟩⟩
  | assetTransfer =>
    exact ⟨⟨_, rfl, rfl⟩, ⟨_, rfl, rfl⟩, ⟨_, rfl, rfl⟩, ⟨_, rfl, rfl⟩, ⟨_, rfl, rfl⟩⟩
  | assetFreeze => exact ⟨⟨_, rfl, rfl⟩, ⟨_, rfl, rfl⟩, ⟨_, rfl, rfl⟩⟩

section Forms

open Json.Form

theorem Header.lawful_forms : (Record.fields (ρ := Header)).All fun f => f.kind.form.Lawful :=
  ⟨lawful_fixed _, lawful_number _, lawful_number _, lawful_number _, lawful_blob, lawful_text,
    lawful_fixed _, lawful_fixed _, lawful_fixed _, lawful_fixed _⟩

theorem Payment.lawful_forms : (Record.fields (ρ := Payment)).All fun f => f.kind.form.Lawful :=
  ⟨lawful_fixed _, lawful_number _, lawful_fixed _⟩

theorem KeyRegistration.lawful_forms :
    (Record.fields (ρ := KeyRegistration)).All fun f => f.kind.form.Lawful :=
  ⟨lawful_fixed _, lawful_fixed _, lawful_number _, lawful_number _, lawful_number _⟩

theorem AssetParams.lawful_forms :
    (Record.fields (ρ := AssetParams)).All fun f => f.kind.form.Lawful :=
  ⟨lawful_number _, lawful_number _, lawful_bool, lawful_text, lawful_text, lawful_text,
    lawful_fixed _, lawful_fixed _, lawful_fixed _, lawful_fixed _, lawful_fixed _⟩

theorem AssetTransfer.lawful_forms :
    (Record.fields (ρ := AssetTransfer)).All fun f => f.kind.form.Lawful :=
  ⟨lawful_number _, lawful_number _, lawful_fixed _, lawful_fixed _, lawful_fixed _⟩

theorem AssetFreeze.lawful_forms :
    (Record.fields (ρ := AssetFreeze)).All fun f => f.kind.form.Lawful :=
  ⟨lawful_fixed _, lawful_number _, lawful_bool⟩

end Forms

/-- An exact field writes nothing that is zero for something that is not. -/
theorem Fields.isZero_of_write {good : String → Value → Prop} {σ : Type} {l : Fields σ}
    (exact : l.All (Field.Exact good))
    (nonzero : ∀ key ∈ l.keys, ∀ v, good key v → v.isZero = false) :
    l.All fun f => ∀ y, (f.kind.writer.write y).isZero = true → f.kind.writer.isZero y = true := by
  induction l with
  | field f =>
    intro y zero
    refine Classical.byContradiction fun some => ?_
    have := nonzero f.key (by simp [keys_field]) _ (exact.good_write (Bool.eq_false_iff.mpr some))
    rw [zero] at this
    cases this
  | both first second ih₁ ih₂ =>
    exact ⟨ih₁ exact.1 fun key h => nonzero key (by simp [keys_both, h]),
      ih₂ exact.2 fun key h => nonzero key (by simp [keys_both, h])⟩

theorem AssetParams.isZero_of_write : (Record.fields (ρ := AssetParams)).All fun f => ∀ y,
    (f.kind.writer.write y).isZero = true → f.kind.writer.isZero y = true := by
  refine Fields.isZero_of_write AssetParams.exact_fields fun key hk v form => ?_
  refine Bool.eq_false_iff.mpr fun zero => ?_
  rw [(form.nonzero zero).1] at hk
  revert hk
  decide

theorem Payload.isZero_of_write (t : TxnType) : (Payload.fieldsOf t).All fun f => ∀ y,
    (f.kind.writer.write y).isZero = true → f.kind.writer.isZero y = true := by
  refine Fields.isZero_of_write (Payload.exact_fieldsOf t) fun key hk v good => ?_
  refine Bool.eq_false_iff.mpr fun zero => ?_
  rw [(good.1.nonzero zero).1] at hk
  revert hk
  cases t <;> decide

/-! ## Asset configurations -/

namespace AssetConfig

/-- The field of the asset. -/
def assetField : Field UInt64 :=
  ⟨"config_asset", "caid", .uint64, some default⟩

/-- The field of the parameters. -/
def paramsField : Field AssetParams :=
  ⟨"params", paramsKey, .nested, some default⟩

/-- The slots of an asset configuration in a wire map. The parameters are a map of their own. -/
def wireSlots : Layout (Slot Value) (Record.Row AssetConfig) :=
  .both (.field assetField.wireSlot) (.field paramsField.wireMapSlot)

/-- The slots of an asset configuration in a JSON record. The parameters are a record of their
own. -/
def jsonSlots : Layout (Slot Json) (Record.Row AssetConfig) :=
  .both (.field assetField.jsonSlot) (.field paramsField.jsonRecordSlot)

/-- The names of asset parameters in JSON, and their keys on the wire. -/
def paramKeys : List (String × String) :=
  [("total", "t"), ("decimals", "dc"), ("default_frozen", "df"), ("unit_name", "un"),
   ("asset_name", "an"), ("url", "au"), ("metadata_hash", "am"), ("manager", "m"), ("reserve", "r"),
   ("freeze", "f"), ("clawback", "c")]

theorem keys_paramSlots :
    (Fields.jsonSlots (Record.fields (ρ := AssetParams))).collect (fun s => s.key) =
        paramKeys.map Prod.fst ∧
      (Fields.wireSlots (Record.fields (ρ := AssetParams))).collect (fun s => s.key) =
        paramKeys.map Prod.snd :=
  ⟨rfl, rfl⟩

/-- Parameters are zero exactly if each of them is. -/
theorem absent_params_iff (p : AssetParams) : paramsField.absent = some p ↔
    (Record.fields (ρ := AssetParams)).AllOf (fun f y => f.absent = some y) (Record.row p) := by
  rw [paramsField, Option.some.injEq]
  constructor
  · rintro rfl
    exact ⟨rfl, rfl, rfl, rfl, rfl, rfl, rfl, rfl, rfl, rfl, rfl⟩
  · rintro ⟨h₁, h₂, h₃, h₄, h₅, h₆, h₇, h₈, h₉, h₁₀, h₁₁⟩
    cases p
    cases h₁; cases h₂; cases h₃; cases h₄; cases h₅; cases h₆
    cases h₇; cases h₈; cases h₉; cases h₁₀; cases h₁₁
    rfl

variable {held : String → Option Value} {p : AssetParams}

theorem ofHeld_params (h : Slot.Holds held paramsField.wireMapSlot p) :
    paramsField.kind.reader.ofHeld paramsKey (held paramsKey) = .ok p := by
  rcases h with ⟨v, hv, es, rfl, spelled⟩ | ⟨hv, zero⟩
  · rw [show held paramsKey = _ from hv]
    exact Record.decodeValue_of_spelled (@AssetParams.lawful_fields 0) AssetParams.optional_fields
      spelled _
  · rw [show held paramsKey = _ from hv]
    cases zero
    rfl

theorem zeroAs_params (h : Slot.Holds held paramsField.wireMapSlot p) :
    Fields.ZeroAs held paramsField p := by
  rcases h with ⟨v, hv, es, rfl, spelled⟩ | ⟨hv, zero⟩
  · rw [Fields.ZeroAs, show held paramsField.key = _ from hv, absent_params_iff]
    exact Record.isZero_of_spelled (@AssetParams.lawful_fields 0) AssetParams.optional_fields
      AssetParams.isZero_of_write spelled
  · rw [Fields.ZeroAs, show held paramsField.key = _ from hv]
    exact ⟨fun _ => zero, fun _ => rfl⟩

end AssetConfig

/-! ## Assignments -/

/-- A value for each field that some transaction has. -/
structure Assignment where
  header : Header
  payment : Payment
  keyRegistration : KeyRegistration
  assetConfig : AssetConfig
  assetTransfer : AssetTransfer
  assetFreeze : AssetFreeze

namespace Assignment

/-- The payload of a type. -/
def payload (a : Assignment) : TxnType → Payload
  | .payment => .payment a.payment
  | .keyRegistration => .keyRegistration a.keyRegistration
  | .assetConfig => .assetConfig a.assetConfig
  | .assetTransfer => .assetTransfer a.assetTransfer
  | .assetFreeze => .assetFreeze a.assetFreeze

/-- The transaction of a type. -/
def txn (a : Assignment) (t : TxnType) : Transaction :=
  ⟨a.header, a.payload t⟩

/-- The row of a type's fields. -/
def row (a : Assignment) : (t : TxnType) → Payload.Row t
  | .payment => Record.row a.payment
  | .keyRegistration => Record.row a.keyRegistration
  | .assetConfig => Record.row a.assetConfig
  | .assetTransfer => Record.row a.assetTransfer
  | .assetFreeze => Record.row a.assetFreeze

/-- A field of a type is not zero. -/
def Sets (a : Assignment) (t : TxnType) (key : String) : Prop :=
  (Payload.fieldsOf t).Sets (a.row t) key

/-- A field that does not belong to the type is not zero. -/
def SetsForeign (a : Assignment) (t : TxnType) (key : String) : Prop :=
  ∃ u, u ≠ t ∧ a.Sets u key

/-- A type and the rows of all fields. -/
abbrev FullRow :=
  TxnType × Record.Row Header × Payload.Row .payment × Payload.Row .keyRegistration ×
    Payload.Row .assetConfig × Payload.Row .assetTransfer × Payload.Row .assetFreeze

/-- The full row of an assignment with a type. -/
def fullRow (a : Assignment) (t : TxnType) : FullRow :=
  (t, Record.row a.header, a.row .payment, a.row .keyRegistration, a.row .assetConfig,
    a.row .assetTransfer, a.row .assetFreeze)

/-- The slots of a type's record in a wire map. -/
def payloadWireSlots : (t : TxnType) → Layout (Slot Value) (Payload.Row t)
  | .payment => Fields.wireSlots (Record.fields (ρ := Payment))
  | .keyRegistration => Fields.wireSlots (Record.fields (ρ := KeyRegistration))
  | .assetConfig => AssetConfig.wireSlots
  | .assetTransfer => Fields.wireSlots (Record.fields (ρ := AssetTransfer))
  | .assetFreeze => Fields.wireSlots (Record.fields (ρ := AssetFreeze))

/-- All slots in a wire map, that of the tag first. The tag is never left out. -/
def wireSlots : Layout (Slot Value) FullRow :=
  .both (.field ⟨Payload.typeKey, fun t v => v = .str t.tag, fun _ => False⟩) <|
  .both (Fields.wireSlots (Record.fields (ρ := Header))) <|
  .both (payloadWireSlots .payment) <|
  .both (payloadWireSlots .keyRegistration) <|
  .both (payloadWireSlots .assetConfig) <|
  .both (payloadWireSlots .assetTransfer) <|
  payloadWireSlots .assetFreeze

/-- The slots of a type's record in a JSON record. -/
def payloadJsonSlots : (t : TxnType) → Layout (Slot Json) (Payload.Row t)
  | .payment => Fields.jsonSlots (Record.fields (ρ := Payment))
  | .keyRegistration => Fields.jsonSlots (Record.fields (ρ := KeyRegistration))
  | .assetConfig => AssetConfig.jsonSlots
  | .assetTransfer => Fields.jsonSlots (Record.fields (ρ := AssetTransfer))
  | .assetFreeze => Fields.jsonSlots (Record.fields (ρ := AssetFreeze))

/-- All slots in a JSON record, that of the tag first. The tag is never left out. -/
def jsonSlots : Layout (Slot Json) FullRow :=
  .both (.field ⟨Payload.typeKey, fun t v => v = .text t.tag, fun _ => False⟩) <|
  .both (Fields.jsonSlots (Record.fields (ρ := Header))) <|
  .both (payloadJsonSlots .payment) <|
  .both (payloadJsonSlots .keyRegistration) <|
  .both (payloadJsonSlots .assetConfig) <|
  .both (payloadJsonSlots .assetTransfer) <|
  payloadJsonSlots .assetFreeze

/-- The names of all slots in JSON, and their keys on the wire. -/
def keyPairs : List (String × String) :=
  [("type", "type"), ("sender", "snd"), ("fee", "fee"), ("first_valid", "fv"), ("last_valid", "lv"),
   ("note", "note"), ("genesis_id", "gen"), ("genesis_hash", "gh"), ("group", "grp"),
   ("lease", "lx"), ("rekey_to", "rekey"), ("receiver", "rcv"), ("amount", "amt"),
   ("close_remainder_to", "close"), ("vote_pk", "votekey"), ("selection_pk", "selkey"),
   ("vote_first", "votefst"), ("vote_last", "votelst"), ("vote_key_dilution", "votekd"),
   ("config_asset", "caid"), ("params", "apar"), ("xfer_asset", "xaid"), ("asset_amount", "aamt"),
   ("asset_sender", "asnd"), ("asset_receiver", "arcv"), ("asset_close_to", "aclose"),
   ("freeze_account", "fadd"), ("freeze_asset", "faid"), ("asset_frozen", "afrz")]

/-- One value is set down under the name in JSON and under the key on the wire. -/
theorem keys_slots : jsonSlots.collect (fun s => s.key) = keyPairs.map Prod.fst ∧
    wireSlots.collect (fun s => s.key) = keyPairs.map Prod.snd :=
  ⟨rfl, rfl⟩

/-- The wire can carry an assignment. -/
structure Small (a : Assignment) : Prop where
  header : a.header.Small
  params : a.assetConfig.params.Small

variable {a : Assignment} {t u : TxnType} {key : String}

theorem type_payload (a : Assignment) (t : TxnType) : (a.payload t).type = t := by
  cases t <;> rfl

theorem entries_payload (a : Assignment) (t : TxnType) :
    (a.payload t).entries = (Payload.fieldsOf t).entries (a.row t) := by
  cases t <;> rfl

theorem mem_keysOf_of_sets (h : a.Sets t key) : key ∈ Payload.keysOf t := by
  rw [Payload.keysOf_eq]
  exact Fields.mem_keys_of_sets h

/-! ## Writing an assignment -/

theorem fits_payload {levels : Nat} (small : a.Small) (u : TxnType) :
    (payloadWireSlots u).AllOf (fun s y => ∀ v, s.spells y v → Fits (levels + 1) v) (a.row u) := by
  cases u with
  | payment => exact Fields.fits_of_spells a.payment.fit
  | keyRegistration => exact Fields.fits_of_spells a.keyRegistration.fit
  | assetConfig =>
    refine ⟨Fields.fits_of_spells (l := .field AssetConfig.assetField) (.uint _), fun v hv => ?_⟩
    -- The parameters are a map inside the map.
    obtain ⟨es, rfl, spelled⟩ := hv
    exact spelled.fits (by decide) (by decide)
      (Fields.fits_of_spells small.params.fit)
  | assetTransfer => exact Fields.fits_of_spells a.assetTransfer.fit
  | assetFreeze => exact Fields.fits_of_spells a.assetFreeze.fit

/-- The format carries every spelling of a small assignment. -/
theorem fits {levels : Nat} {es : List (String × Value)} (small : a.Small)
    (h : Spelled wireSlots (a.fullRow t) es) : Fits (levels + 2) (.map es) := by
  refine h.fits (by decide) (by decide) ⟨?_,
    Fields.fits_of_spells small.header.fit, fits_payload small _, fits_payload small _,
    fits_payload small _, fits_payload small _, fits_payload small _⟩
  rintro v rfl
  exact .str (by cases t <;> decide)

/-- Every spelling of an assignment can be printed. -/
theorem printable {ms : List (String × Json)} (h : Spelled jsonSlots (a.fullRow t) ms) :
    (Json.record ms).Printable := by
  refine h.printable ⟨?_, Fields.printable_of_spells Header.lawful_forms,
    Fields.printable_of_spells Payment.lawful_forms,
    Fields.printable_of_spells KeyRegistration.lawful_forms,
    ⟨Fields.printable_of_spells (l := .field AssetConfig.assetField) (Json.Form.lawful_number _),
      ?_⟩,
    Fields.printable_of_spells AssetTransfer.lawful_forms,
    Fields.printable_of_spells AssetFreeze.lawful_forms⟩
  · rintro v rfl
    exact .text _
  · rintro v ⟨params, rfl, spelled⟩
    exact spelled.printable (Fields.printable_of_spells AssetParams.lawful_forms)

end Assignment

end LedgerCodec
