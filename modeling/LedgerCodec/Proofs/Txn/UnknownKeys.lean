import LedgerCodec.Proofs.Json.Shapes
import LedgerCodec.Proofs.Txn.JsonRoundTrip
/-!
# Unknown keys in JSON

The parameters of assets, transactions, envelopes and what authorizes them are
strict: no text is read in which one of them has an unknown key, at whatever
depth it stands. Headers, groups, the records of payloads and payloads themselves
pass over unknown keys. `JsonType.unknown_keys` states both for all types at once.
-/

namespace LedgerCodec

open Json

/-! ## Records -/

namespace Json.Members

/-- Fields in which no record stands spare what other fields hold. -/
theorem all_spares {inside : String → Shape} {σ : Type} {l : Members σ}
    (leaves : ∀ key ∈ names l, inside key = .plain) :
    l.All fun m => m.form.Spares (inside m.name) := by
  refine (l.all_mem_collect fun m => m.name).imp fun m known => ?_
  rw [leaves m.name known]
  exact m.form.spares_plain

end Json.Members

namespace Record

variable {ρ : Type} [Record ρ] {inside : String → Shape}

theorem spares_form (distinct : (Members.names (json ρ).members).Nodup)
    (spares : (json ρ).members.All fun m => m.form.Spares (inside m.name)) :
    (form : Form ρ).Spares ((json ρ).shape inside) := by
  intro source d x read
  obtain ⟨row, read, -⟩ := map_eq_ok.mp read
  exact RecordForm.not_strays distinct spares read

/-- A key that is no field makes no difference where it may stand. -/
theorem read_insert {source : Source} {key : String} {d : Doc}
    {before after : List (Option String × Doc)} {ending : Ending} {x : ρ}
    (lenient : strict ρ = false) (other : key ∉ Members.names (json ρ).members) :
    (form : Form ρ).read source (.record (before ++ (some key, d) :: after) ending) = .ok x ↔
      d.isComplete = true ∧
        (form : Form ρ).read source (.record (before ++ after) ending) = .ok x := by
  have rows (row : Row ρ) :
      (json ρ).read source (.record (before ++ (some key, d) :: after) ending) = .ok row ↔
        d.isComplete = true ∧
          (json ρ).read source (.record (before ++ after) ending) = .ok row :=
    RecordForm.read_insert lenient other
  simp only [form, map_eq_ok, rows, and_assoc, exists_and_left]

end Record

theorem Header.spares_form : (Record.form : Form Header).Spares
    ((Record.json Header).shape fun _ => .plain) :=
  Record.spares_form (by decide) (Members.all_spares_plain _)

theorem Group.spares_form : (Record.form : Form Group).Spares
    ((Record.json Group).shape fun _ => .plain) :=
  Record.spares_form (by decide) (Members.all_spares_plain _)

namespace AssetParams

/-- The shape of the parameters of an asset. -/
def shape : Shape :=
  (Record.json AssetParams).shape fun _ => .plain

theorem spares_form : (Record.form : Form AssetParams).Spares shape :=
  Record.spares_form (by decide) (Members.all_spares_plain _)

end AssetParams

/-! ## The records of payloads -/

namespace Payload

variable {t : TxnType} {p : Payload} {source : Source} {d : Doc} {key : String}

/-- The JSON record of a type. -/
def recordForm : (t : TxnType) → RecordForm (Row t)
  | .payment => Record.json Payment
  | .keyRegistration => Record.json KeyRegistration
  | .assetConfig => Record.json AssetConfig
  | .assetTransfer => Record.json AssetTransfer
  | .assetFreeze => Record.json AssetFreeze

theorem strict_recordForm (t : TxnType) : (recordForm t).strict = false := by
  cases t <;> rfl

theorem names_recordForm (t : TxnType) : Members.names (recordForm t).members = names t := by
  cases t <;> rfl

theorem nodup_recordForm (t : TxnType) : (Members.names (recordForm t).members).Nodup :=
  names_recordForm t ▸ nodup_names t

theorem readRecord_eq (d : Doc) (t : TxnType) :
    readRecord d t = ((recordForm t).read .buffer d).map (ofRow t) := by
  cases t <;> exact map_map _ _ _

/-- What stands in the fields of a type. -/
def inside : TxnType → String → Shape
  | .assetConfig, key => if key = AssetConfig.paramsField.name then AssetParams.shape else .plain
  | _, _ => .plain

/-- The shape of the record of a type. -/
def recordShape (t : TxnType) : Shape :=
  .record false (names t) (inside t)

theorem shape_recordForm (t : TxnType) : (recordForm t).shape (inside t) = recordShape t := by
  cases t <;> rfl

theorem spares_recordForm (t : TxnType) :
    (recordForm t).members.All fun m => m.form.Spares (inside t m.name) := by
  cases t with
  | assetConfig => exact ⟨Form.spares_plain _, AssetParams.spares_form⟩
  | _ => exact Members.all_spares_plain _

theorem readRecord_not_strays (made : readRecord d t = .ok p) :
    p.type = t ∧ ¬ (recordShape t).Strays d := by
  rw [readRecord_eq] at made
  obtain ⟨row, read, rfl⟩ := map_eq_ok.mp made
  rw [← shape_recordForm]
  exact ⟨type_ofRow t row, RecordForm.not_strays (nodup_recordForm t) (spares_recordForm t) read⟩

/-- A key that the type does not have makes no difference in its record. -/
theorem readRecord_insert {before after : List (Option String × Doc)} {ending : Ending}
    (other : key ∉ names t) :
    readRecord (.record (before ++ (some key, d) :: after) ending) t = .ok p ↔
      d.isComplete = true ∧ readRecord (.record (before ++ after) ending) t = .ok p := by
  rw [← names_recordForm] at other
  simp only [readRecord_eq, map_eq_ok, RecordForm.read_insert (strict_recordForm t) other,
    and_assoc, exists_and_left]

/-! ## Members that are put aside -/

theorem hold_eq_ok {held : Doc} :
    hold d = .ok held ↔ d.isHeld heldLevels = true ∧ d = held := by
  rw [hold]
  cases d.isHeld heldLevels <;> simp

theorem isComplete_of_isHeld {levels : Nat} (h : d.isHeld levels = true) : d.isComplete = true := by
  cases d <;> cases levels <;> simp_all [Doc.isHeld, Doc.isComplete]

theorem holdMember_other {held held' : Held} (other : key ≠ typeKey) :
    holdMember held (some key, d) = .ok held' ↔
      d.isHeld heldLevels = true ∧ ⟨held.type, (some key, d) :: held.members⟩ = held' := by
  rw [holdMember, if_neg other]
  cases fits : d.isHeld heldLevels <;> simp [hold, fits]

/-- What has been put aside before does not matter for what comes. -/
theorem holdMember_aside (type : Option TxnType) (aside : List (Option String × Doc))
    (m : Option String × Doc) : holdMember ⟨type, aside⟩ m =
      (holdMember ⟨type, []⟩ m).map fun held => ⟨held.type, held.members ++ aside⟩ := by
  obtain ⟨_ | key, d⟩ := m
  · rfl
  by_cases tag : key = typeKey
  · cases type with
    | some t => simp [holdMember, tag, Except.map]
    | none =>
      simp only [holdMember, if_pos tag]
      cases readTag d <;> rfl
  · simp only [holdMember, if_neg tag]
    cases hold d <;> rfl

theorem foldlM_holdMember_aside (ms : List (Option String × Doc)) (type : Option TxnType)
    (aside : List (Option String × Doc)) : ms.foldlM holdMember ⟨type, aside⟩ =
      (ms.foldlM holdMember ⟨type, []⟩).map fun held => ⟨held.type, held.members ++ aside⟩ := by
  induction ms generalizing type aside with
  | nil => rfl
  | cons m ms ih =>
    rw [List.foldlM_cons, List.foldlM_cons, holdMember_aside]
    cases holdMember ⟨type, []⟩ m with
    | error e => rfl
    | ok first =>
      simp only [Except.map, bind_ok]
      rw [ih, ih first.type first.members]
      cases ms.foldlM holdMember ⟨first.type, []⟩ <;> simp [Except.map]

/-- Every member but the tag is put aside. -/
theorem mem_of_foldlM {ms : List (Option String × Doc)} {held held' : Held}
    (taken : ms.foldlM holdMember held = .ok held') (met : (some key, d) ∈ ms)
    (other : key ≠ typeKey) : (some key, d) ∈ held'.members := by
  obtain ⟨before, after, rfl⟩ := List.append_of_mem met
  rw [List.foldlM_append, bind_eq_ok] at taken
  obtain ⟨between, -, taken⟩ := taken
  rw [List.foldlM_cons, bind_eq_ok] at taken
  obtain ⟨_, step, taken⟩ := taken
  obtain ⟨-, rfl⟩ := (holdMember_other other).mp step
  rw [foldlM_holdMember_aside] at taken
  obtain ⟨last, -, rfl⟩ := map_eq_ok.mp taken
  exact List.mem_append_right _ List.mem_cons_self

/-- What is put aside from two runs of members, one after the other. -/
theorem foldlM_append_eq_ok {before after : List (Option String × Doc)} {held : Held} :
    (before ++ after).foldlM holdMember ⟨none, []⟩ = .ok held ↔ ∃ first last,
      before.foldlM holdMember ⟨none, []⟩ = .ok first ∧
        after.foldlM holdMember ⟨first.type, []⟩ = .ok last ∧
          ⟨last.type, last.members ++ first.members⟩ = held := by
  rw [List.foldlM_append, bind_eq_ok]
  refine exists_congr fun first => ?_
  rw [foldlM_holdMember_aside after, map_eq_ok, exists_and_left]

/-- What is put aside if another member stands between them. -/
theorem foldlM_insert_eq_ok {before after : List (Option String × Doc)} {held : Held}
    (other : key ≠ typeKey) :
    (before ++ (some key, d) :: after).foldlM holdMember ⟨none, []⟩ = .ok held ↔
      d.isHeld heldLevels = true ∧ ∃ first last,
        before.foldlM holdMember ⟨none, []⟩ = .ok first ∧
          after.foldlM holdMember ⟨first.type, []⟩ = .ok last ∧
            ⟨last.type, last.members ++ (some key, d) :: first.members⟩ = held := by
  rw [List.foldlM_append, bind_eq_ok]
  constructor
  · rintro ⟨first, taken, rest⟩
    rw [List.foldlM_cons] at rest
    obtain ⟨_, step, rest⟩ := bind_eq_ok.mp rest
    obtain ⟨fits, rfl⟩ := (holdMember_other other).mp step
    rw [foldlM_holdMember_aside] at rest
    obtain ⟨last, rest, same⟩ := map_eq_ok.mp rest
    exact ⟨fits, first, last, taken, rest, same⟩
  · rintro ⟨fits, first, last, taken, rest, same⟩
    refine ⟨first, taken, ?_⟩
    rw [List.foldlM_cons, (holdMember_other other).mpr ⟨fits, rfl⟩, bind_ok,
      foldlM_holdMember_aside, rest, ← same]
    rfl

theorem eq_of_mapM_hold {items held : List Doc} (h : items.mapM hold = .ok held) :
    held = items := by
  induction items generalizing held with
  | nil =>
    cases h
    rfl
  | cons item items ih =>
    rw [List.mapM_cons] at h
    obtain ⟨_, first, rest⟩ := bind_eq_ok.mp h
    obtain ⟨more, later, made⟩ := bind_eq_ok.mp rest
    obtain ⟨-, rfl⟩ := hold_eq_ok.mp first
    cases made
    rw [ih later]

/-! ## Payloads -/

theorem read_record_eq_ok {ms : List (Option String × Doc)} {ending : Ending} :
    form.read source (.record ms ending) = .ok p ↔ ending = .closed ∧ ∃ held,
      ms.foldlM holdMember ⟨none, []⟩ = .ok ⟨some p.type, held⟩ ∧
        readRecord (.record held.reverse .closed) p.type = .ok p := by
  show (ms.foldlM holdMember ⟨none, []⟩ >>= fun held => _) = _ ↔ _
  rw [bind_eq_ok]
  cases ending with
  | cut => simp [Ending.isClosed]
  | closed =>
    simp only [Ending.isClosed, if_true, true_and]
    constructor
    · rintro ⟨⟨_ | t, held⟩, taken, read⟩
      · cases read
      · obtain ⟨rfl, -⟩ := readRecord_not_strays read
        exact ⟨held, taken, read⟩
    · rintro ⟨held, taken, read⟩
      exact ⟨_, taken, read⟩

theorem readRecord_of_list {items : List Doc} {ending : Ending}
    (read : form.read source (.list items ending) = .ok p) :
    ∃ tag rest, items = tag :: rest ∧ readRecord (.list rest .closed) p.type = .ok p := by
  cases items with
  | nil => cases ending <;> cases read
  | cons tag rest =>
    obtain ⟨t, -, items⟩ := bind_eq_ok.mp read
    obtain ⟨held, taken, made⟩ := bind_eq_ok.mp items
    obtain rfl := eq_of_mapM_hold taken
    cases ending with
    | cut => cases made
    | closed =>
      obtain ⟨rfl, -⟩ := readRecord_not_strays made
      exact ⟨tag, held, rfl, made⟩

/-- The shape of a payload: the record of its type, and the tag. -/
def shape (t : TxnType) : Shape :=
  .record false (typeKey :: names t) (inside t)

theorem not_strays_tag (t : TxnType) (d : Doc) : ¬ (inside t typeKey).Strays d := by
  cases t <;> exact Shape.not_strays_plain d

theorem not_strays (read : form.read source d = .ok p) : ¬ (shape p.type).Strays d := by
  intro strays
  cases strays with
  | key refused => cases refused
  | @field _ _ _ _ _ key _ met known strays =>
    obtain ⟨-, held, taken, made⟩ := read_record_eq_ok.mp read
    have other : key ≠ typeKey := by
      rintro rfl
      exact not_strays_tag _ _ strays
    exact (readRecord_not_strays made).2 (.field
      (List.mem_reverse.mpr (mem_of_foldlM taken met other))
      ((List.mem_cons.mp known).resolve_left other) strays)
  | place met strays =>
    obtain ⟨tag, rest, rfl, made⟩ := readRecord_of_list read
    rcases List.mem_cons.mp met with first | met
    · cases first
      exact not_strays_tag _ _ strays
    · exact (readRecord_not_strays made).2 (.place met strays)

/-- A key that the type does not have makes no difference, if its value can be put aside. -/
theorem read_insert {before after : List (Option String × Doc)} {ending : Ending}
    (other : key ∉ typeKey :: names p.type) :
    form.read source (.record (before ++ (some key, d) :: after) ending) = .ok p ↔
      d.isHeld heldLevels = true ∧ form.read source (.record (before ++ after) ending) = .ok p := by
  rw [List.mem_cons, not_or] at other
  obtain ⟨notTag, other⟩ := other
  -- The member stands among those put aside, and makes no difference there.
  have same (last first : List (Option String × Doc)) (fits : d.isHeld heldLevels = true) :
      readRecord (.record (last ++ (some key, d) :: first).reverse .closed) p.type = .ok p ↔
        readRecord (.record (last ++ first).reverse .closed) p.type = .ok p := by
    rw [List.reverse_append, List.reverse_cons, List.append_assoc, List.singleton_append,
      readRecord_insert other, List.reverse_append]
    exact and_iff_right (isComplete_of_isHeld fits)
  simp only [read_record_eq_ok, foldlM_append_eq_ok, foldlM_insert_eq_ok notTag, Held.mk.injEq]
  constructor
  · rintro ⟨rfl, _, ⟨fits, first, last, before, after, type, rfl⟩, read⟩
    exact ⟨fits, rfl, _, ⟨first, last, before, after, type, rfl⟩, (same _ _ fits).mp read⟩
  · rintro ⟨fits, rfl, _, ⟨first, last, before, after, type, rfl⟩, read⟩
    exact ⟨rfl, _, ⟨fits, first, last, before, after, type, rfl⟩, (same _ _ fits).mpr read⟩

end Payload

/-! ## Transactions and envelopes -/

namespace Transaction

/-- The shape of a transaction. -/
def shape : Shape :=
  flat.shape (Payload.inside .assetConfig)

theorem spares_form : form.Spares shape := by
  intro source d t read
  obtain ⟨row, read, -⟩ := bind_eq_ok.mp read
  have leaves {σ : Type} {l : Members σ}
      (other : AssetConfig.paramsField.name ∉ Members.names l) :
      l.All fun m => m.form.Spares (Payload.inside .assetConfig m.name) :=
    Members.all_spares fun key known =>
      if_neg fun same : key = AssetConfig.paramsField.name => other (same ▸ known)
  exact RecordForm.not_strays (by decide) ⟨Form.spares_plain _, leaves (by decide),
    leaves (by decide), leaves (by decide), Payload.spares_recordForm .assetConfig,
    leaves (by decide), leaves (by decide)⟩ read

end Transaction

namespace Cosigner

/-- The shape of a participant. -/
def shape : Shape :=
  (Record.json Cosigner).shape fun _ => .plain

theorem spares_form : (Record.form : Form Cosigner).Spares shape :=
  Record.spares_form (by decide) (Members.all_spares_plain _)

end Cosigner

namespace Multisig

/-- The shape of a multisignature. -/
def shape : Shape :=
  (Record.json Multisig).shape fun
    | "subsigs" => .list Cosigner.shape
    | _ => .plain

theorem spares_form : (Record.form : Form Multisig).Spares shape :=
  Record.spares_form (by decide)
    ⟨Form.spares_plain _, Form.spares_plain _, Form.Spares.list Cosigner.spares_form⟩

end Multisig

namespace LogicSig

/-- The shape of a logic signature. -/
def shape : Shape :=
  (Record.json LogicSig).shape fun
    | "msig" => Multisig.shape
    | _ => .plain

theorem spares_form : (Record.form : Form LogicSig).Spares shape :=
  Record.spares_form (by decide)
    ⟨Form.spares_plain _, Form.spares_plain _, Multisig.spares_form, Form.spares_plain _⟩

end LogicSig

namespace Envelope

/-- The shape of an envelope. -/
def shape : Shape :=
  (Record.json Envelope).shape fun
    | "msig" => Multisig.shape
    | "lsig" => LogicSig.shape
    | "txn" => Transaction.shape
    | _ => .plain

theorem spares_form : (Record.form : Form Envelope).Spares shape :=
  Record.spares_form (by decide) ⟨Form.spares_plain _, Multisig.spares_form, LogicSig.spares_form,
    Transaction.spares_form, Form.spares_plain _⟩

end Envelope

/-! ## All types -/

namespace JsonType

/-- The shape of a value. That of a payload depends on its type. -/
def shape : (t : JsonType) → t.Val → Shape
  | header, _ => (Record.json Header).shape fun _ => .plain
  | payment, _ => Payload.recordShape .payment
  | keyRegistration, _ => Payload.recordShape .keyRegistration
  | assetParams, _ => AssetParams.shape
  | assetConfig, _ => Payload.recordShape .assetConfig
  | assetTransfer, _ => Payload.recordShape .assetTransfer
  | assetFreeze, _ => Payload.recordShape .assetFreeze
  | payload, p => Payload.shape (Payload.type p)
  | transaction, _ => Transaction.shape
  | group, _ => (Record.json Group).shape fun _ => .plain
  | cosigner, _ => Cosigner.shape
  | multisig, _ => Multisig.shape
  | logicSig, _ => LogicSig.shape
  | envelope, _ => Envelope.shape
  | _, _ => .plain

/-- Whether a value may stand under a key that is passed over. That of a payload is put aside
before it is known that the type does not have the key. -/
def passes : JsonType → Doc → Bool
  | payload, d => d.isHeld Payload.heldLevels
  | _, d => d.isComplete

theorem not_strays {t : JsonType} {source : Source} {d : Doc} {x : t.Val}
    (read : t.form.read source d = .ok x) : ¬ (t.shape x).Strays d := by
  cases t with
  | fixed role => exact Shape.not_strays_plain d
  | id => exact Shape.not_strays_plain d
  | type => exact Shape.not_strays_plain d
  | header => exact Header.spares_form source d x read
  | payment =>
    exact Record.spares_form (Payload.nodup_recordForm .payment)
      (Payload.spares_recordForm .payment) source d x read
  | keyRegistration =>
    exact Record.spares_form (Payload.nodup_recordForm .keyRegistration)
      (Payload.spares_recordForm .keyRegistration) source d x read
  | assetParams => exact AssetParams.spares_form source d x read
  | assetConfig =>
    exact Record.spares_form (Payload.nodup_recordForm .assetConfig)
      (Payload.spares_recordForm .assetConfig) source d x read
  | assetTransfer =>
    exact Record.spares_form (Payload.nodup_recordForm .assetTransfer)
      (Payload.spares_recordForm .assetTransfer) source d x read
  | assetFreeze =>
    exact Record.spares_form (Payload.nodup_recordForm .assetFreeze)
      (Payload.spares_recordForm .assetFreeze) source d x read
  | payload => exact Payload.not_strays read
  | transaction => exact Transaction.spares_form source d x read
  | group => exact Group.spares_form source d x read
  | cosigner => exact Cosigner.spares_form source d x read
  | multisig => exact Multisig.spares_form source d x read
  | logicSig => exact LogicSig.spares_form source d x read
  | envelope => exact Envelope.spares_form source d x read

theorem read_insert {t : JsonType} {source : Source} {key : String} {d : Doc}
    {before after : List (Option String × Doc)} {ending : Ending} {x : t.Val}
    (skips : (t.shape x).Skips key) :
    t.form.read source (.record (before ++ (some key, d) :: after) ending) = .ok x ↔
      t.passes d = true ∧ t.form.read source (.record (before ++ after) ending) = .ok x := by
  cases t with
  | header => exact Record.read_insert (ρ := Header) rfl skips
  | payment => exact Record.read_insert (ρ := Payment) rfl skips
  | keyRegistration => exact Record.read_insert (ρ := KeyRegistration) rfl skips
  | assetConfig => exact Record.read_insert (ρ := AssetConfig) rfl skips
  | assetTransfer => exact Record.read_insert (ρ := AssetTransfer) rfl skips
  | assetFreeze => exact Record.read_insert (ρ := AssetFreeze) rfl skips
  | payload => exact Payload.read_insert skips
  | group => exact Record.read_insert (ρ := Group) rfl skips
  | _ => exact skips.elim

/-- A text that is read has no unknown key in a strict record, at whatever depth. An unknown key of
a record that is not strict makes no difference: the text with it is read as whatever the text
without it is. -/
theorem unknown_keys (t : JsonType) (x : t.Val) :
    (∀ text, t.form.parse text = .ok x → ¬ (t.shape x).Strays (Doc.parse text).1) ∧
      ∀ key d before after text more, (t.shape x).Skips key →
        Doc.parse text = (.record (before ++ after) .closed, true) →
        Doc.parse more = (.record (before ++ (some key, d) :: after) .closed, true) →
        (t.form.parse more = .ok x ↔ t.passes d = true ∧ t.form.parse text = .ok x) := by
  constructor
  · intro text read
    obtain ⟨d, parsed, read⟩ := Form.parse_eq_ok.mp read
    rw [parsed]
    exact not_strays read
  · intro key d before after text more skips without one
    simp only [Form.parse, without, one, if_true, bind_eq_ok, Except.ok.injEq, exists_eq_right]
    exact read_insert skips

/-- An asset configuration passes over a key beside its parameters. -/
theorem unknown_keys_assetConfig :
    ¬ (shape assetConfig (default : AssetConfig)).Strays
        (Doc.parse (Json.record [("params", .record [])]).compact).1 ∧
      assetConfig.form.parse (Json.record [("params", .record []), ("zz", .number 1)]).compact =
        .ok (default : AssetConfig) := by
  have params : (Json.record []).Printable := .record nofun
  have number : (Json.number 1).Printable := .number (by decide)
  have without := parse_of_spells (spells_compact (v := Json.record [("params", .record [])])
    (.record (by simpa using params)))
  have one := parse_of_spells (spells_compact
    (v := Json.record [("params", .record []), ("zz", .number 1)])
    (.record (by simpa using ⟨params, number⟩)))
  have read : assetConfig.form.parse (Json.record [("params", .record [])]).compact =
      .ok (default : AssetConfig) := by
    rw [Form.parse, without]
    rfl
  have skips : (shape assetConfig (default : AssetConfig)).Skips "zz" := by
    show "zz" ∉ Payload.names .assetConfig
    decide
  obtain ⟨strict, lenient⟩ := unknown_keys assetConfig (default : AssetConfig)
  exact ⟨strict _ read,
    (lenient "zz" _ [(some "params", _)] [] _ _ skips without one).mpr ⟨rfl, read⟩⟩

end JsonType

/-- A header is read from a record whose only key is unknown. -/
theorem Header.ofJson_unknown_key : ofJson "\x7b\"zz\":1\x7d" = .ok (default : Header) ∧
    Doc.parse "\x7b\"zz\":1\x7d" = (.record [(some "zz", .number (.integer 1))] .closed, true) ∧
    "zz" ∉ Members.names (Record.json Header).members := by
  have text : (Json.record [("zz", .number 1)]).compact = "\x7b\"zz\":1\x7d" := by
    decide +kernel
  have printable : (Json.record [("zz", .number 1)]).Printable :=
    .record fun e he => List.mem_singleton.mp he ▸ .number (by decide)
  have parsed := parse_of_spells (spells_compact printable)
  rw [text] at parsed
  refine ⟨?_, parsed, by decide⟩
  show Form.parse _ _ = _
  rw [Form.parse, parsed]
  rfl

end LedgerCodec
