import LedgerCodec.Proofs.Json.Accepted
import LedgerCodec.Proofs.Txn.JsonForms
/-!
# The texts that are a transaction

A text is read as a transaction exactly if it gives the transaction's flat
record: `Transaction.FlatMembers` says which members that takes, and
`ofJson_eq_ok_iff_flat` that nothing else is read. The record may also be given as
a list of its values in order, and the tag as the one key of a record.
-/

namespace LedgerCodec

open Json

/-! ## Tags -/

namespace Json.Form

variable {d : Doc} {t : TxnType}

/-- A document stands for a type. -/
inductive IsTag (t : TxnType) : Doc → Prop
  | text : IsTag t (.text (some t.tag))
  /-- It is a record with the tag as its one key, which holds nothing. -/
  | record : IsTag t (.record [(some t.tag, .null)] .closed)

theorem readTag_eq_ok {s : String} : readTag s = .ok t ↔ s = t.tag := by
  rw [readTag]
  constructor
  · intro read
    split at read
    · rename_i found
      cases read
      exact (TxnType.tag_of_ofTag? found).symm
    · cases read
  · rintro rfl
    rw [TxnType.ofTag?_tag]

theorem readType_eq_ok : readType d = .ok t ↔ IsTag t d := by
  constructor
  · intro read
    unfold readType at read
    split at read
    · obtain rfl := readTag_eq_ok.mp read
      exact .text
    · rename_i key d more ending
      obtain ⟨t', found, rest⟩ := bind_eq_ok.mp read
      obtain rfl := readTag_eq_ok.mp found
      split at rest
      · split at rest
        · rename_i last
          cases rest
          cases more <;> cases ending <;> first | exact .record | cases last
        · cases rest
      · cases rest
    · cases read
  · rintro (_ | _)
    · exact readTag_eq_ok.mpr rfl
    · rw [readType, readTag_eq_ok.mpr rfl]
      rfl

theorem read_optionalType {source : Source} :
    optionalType.read source d = .ok (some t) ↔ IsTag t d := by
  rw [← readType_eq_ok]
  cases d with
  | null => simp [optionalType, readType]
  | _ => simp [optionalType, map_eq_ok]

end Json.Form

/-! ## Rows of one type -/

namespace Fields

variable {σ : Type} {l : Fields σ} {x y : σ}

theorem absent_of_not_sets (h : ∀ key, ¬ l.Sets x key) :
    l.AllOf (fun f y => f.absent = some y) x := by
  induction l with
  | field f => exact Classical.not_not.mp (h f.key) rfl
  | both first second ih₁ ih₂ =>
    exact ⟨ih₁ fun key set => h key fun all => set all.1,
      ih₂ fun key set => h key fun all => set all.2⟩

/-- There is one row of zeros. -/
theorem eq_of_absent (hx : l.AllOf (fun f y => f.absent = some y) x)
    (hy : l.AllOf (fun f y => f.absent = some y) y) : x = y := by
  induction l with
  | field f => exact Option.some.inj (hx.symm.trans hy)
  | both first second ih₁ ih₂ => exact Prod.ext (ih₁ hx.1 hy.1) (ih₂ hx.2 hy.2)

end Fields

namespace Assignment

variable {a : Assignment} {t : TxnType}

/-- Values of one type are those of its transaction. -/
theorem row_eq_of_own (own : ∀ key, ¬ a.SetsForeign t key) (u : TxnType) :
    a.row u = (ofTxn (a.txn t)).row u := by
  have type : (a.txn t).type = t := type_payload a t
  by_cases same : u = t
  · subst same
    cases u <;> rfl
  · refine Fields.eq_of_absent (Fields.absent_of_not_sets fun key set => own key ⟨u, same, set⟩) ?_
    exact absent_ofTxn (by rwa [type])

theorem flatRow_eq_of_own (own : ∀ key, ¬ a.SetsForeign t key) :
    a.flatRow t = (ofTxn (a.txn t)).flatRow (a.txn t).type := by
  have rows (u : TxnType) := row_eq_of_own own u
  have type : (a.txn t).type = t := type_payload a t
  rw [type]
  show (some t, Record.row a.header, a.row .payment, a.row .keyRegistration, a.row .assetConfig,
    a.row .assetTransfer, a.row .assetFreeze) = _
  rw [rows, rows, rows, rows, rows]
  rfl

end Assignment

namespace Transaction

variable {t : Transaction} {es : List (String × Doc)} {source : Source}

/-- A flat row makes a transaction exactly if it is the transaction's own. -/
theorem ofFlat_eq_ok {row : FlatRow} :
    ofFlat row = .ok t ↔ row = (Assignment.ofTxn t).flatRow t.type := by
  constructor
  · intro made
    obtain ⟨_ | type, header, payment, keyRegistration, assetConfig, assetTransfer, assetFreeze⟩ :=
      row
    · cases made
    let a : Assignment := ⟨Record.ofRow header, Record.ofRow payment, Record.ofRow keyRegistration,
      Record.ofRow assetConfig, Record.ofRow assetTransfer, Record.ofRow assetFreeze⟩
    have rows : (some type, header, payment, keyRegistration, assetConfig, assetTransfer,
        assetFreeze) = a.flatRow type := by
      simp only [Assignment.flatRow, a, Record.row_ofRow]
    rw [rows] at made ⊢
    have own : ∀ key, ¬ a.SetsForeign type key := by
      intro key set
      obtain ⟨_, -, refused⟩ := Assignment.ofFlat_error set
      rw [refused] at made
      cases made
    rw [Assignment.ofFlat_ok own] at made
    obtain rfl := Except.ok.inj made
    exact Assignment.flatRow_eq_of_own own
  · rintro rfl
    rw [Assignment.ofFlat_ok Assignment.own_ofTxn, Assignment.txn_ofTxn]

/-! ## The flat record -/

/-- The members of the flat record of a transaction. -/
structure FlatMembers (t : Transaction) (source : Source) (es : List (String × Doc)) : Prop where
  once : (es.map Prod.fst).Nodup
  known : ∀ e ∈ es, e.1 ∈ Members.names flat.members
  tag : ∃ d, (Payload.typeKey, d) ∈ es ∧ Form.IsTag t.type d
  header : (Fields.members Record.fields).AllOf (fun m y => m.Given source es y)
    (Record.row t.header)
  own : (Payload.fieldsOf t.payload.type).members.AllOf (fun m y => m.Given source es y)
    t.payload.row
  /-- A field of another type is read as its zero, if it stands there. -/
  foreign : ∀ u ≠ t.type, (Payload.fieldsOf u).All fun f => ∃ zero, f.absent = some zero ∧
    ∀ d, (f.name, d) ∈ es → f.kind.form.read source d = .ok zero
  /-- The parameters of an asset, if they stand there, are a record of known keys, each once. -/
  params : ∀ d, (AssetConfig.paramsField.name, d) ∈ es → ∃ ps,
    (Record.json AssetParams).Gives d ps ∧ (ps.map Prod.fst).Nodup ∧
      ∀ e ∈ ps, e.1 ∈ Members.names (Record.json AssetParams).members

theorem allOf_flatRow {P : {τ : Type} → Member τ → τ → Prop} {a : Assignment} {t : TxnType} :
    flat.members.AllOf P (a.flatRow t) ↔
      P ⟨Payload.typeKey, Form.optionalType, some none⟩ (some t) ∧
        (Fields.members Record.fields).AllOf P (Record.row a.header) ∧
          ∀ u, (Payload.fieldsOf u).members.AllOf P (a.row u) := by
  constructor
  · rintro ⟨tag, header, pay, keyreg, acfg, axfer, afrz⟩
    refine ⟨tag, header, fun u => ?_⟩
    cases u
    · exact pay
    · exact keyreg
    · exact acfg
    · exact axfer
    · exact afrz
  · rintro ⟨tag, header, payload⟩
    exact ⟨tag, header, payload .payment, payload .keyRegistration, payload .assetConfig,
      payload .assetTransfer, payload .assetFreeze⟩

theorem given_type {t : TxnType} :
    (⟨Payload.typeKey, Form.optionalType, some none⟩ : Member _).Given source es (some t) ↔
      ∃ d, (Payload.typeKey, d) ∈ es ∧ Form.IsTag t d := by
  simp [Member.Given, Form.read_optionalType]

/-- The fields of another type are those of a transaction exactly if each is read as its zero. -/
theorem given_foreign {u : TxnType} (other : u ≠ t.type) (once : (es.map Prod.fst).Nodup) :
    (Payload.fieldsOf u).members.AllOf (fun m y => m.Given source es y)
        ((Assignment.ofTxn t).row u) ↔
      (Payload.fieldsOf u).All fun f => ∃ zero, f.absent = some zero ∧
        ∀ d, (f.name, d) ∈ es → f.kind.form.read source d = .ok zero := by
  have zeros := Assignment.absent_ofTxn other
  rw [Fields.members, Layout.allOf_map]
  constructor
  · intro given
    exact (zeros.and given).all fun f y h => ⟨y, h.1, ((Member.given_iff once).mp h.2).1⟩
  · intro reads
    refine (zeros.and (reads.allOf _)).imp fun f y ⟨absent, zero, absent', read⟩ => ?_
    obtain rfl : zero = y := Option.some.inj (absent'.symm.trans absent)
    exact (Member.given_iff once).mpr ⟨read, .inr absent⟩

/-- Parameters of an asset are read from a record of known keys, each once. -/
theorem params_of_given {c : AssetConfig} (once : (es.map Prod.fst).Nodup)
    (given : (Payload.fieldsOf .assetConfig).members.AllOf (fun m y => m.Given source es y)
      (Record.row c)) :
    ∀ d, (AssetConfig.paramsField.name, d) ∈ es → ∃ ps,
      (Record.json AssetParams).Gives d ps ∧ (ps.map Prod.fst).Nodup ∧
        ∀ e ∈ ps, e.1 ∈ Members.names (Record.json AssetParams).members := by
  intro d hd
  have read : (Record.form : Form AssetParams).read source d = .ok c.params :=
    ((Member.given_iff once).mp given.2).1 d hd
  obtain ⟨row, read, -⟩ := map_eq_ok.mp read
  obtain ⟨ps, gives, admits, -⟩ := (RecordForm.read_eq_ok (by decide)).mp read
  exact ⟨ps, gives, (RecordForm.admits_strict_iff rfl).mp admits⟩

theorem read_eq_ok_iff_flat {d : Doc} : form.read source d = .ok t ↔
    flat.read source d = .ok ((Assignment.ofTxn t).flatRow t.type) := by
  rw [form, bind_eq_ok]
  constructor
  · rintro ⟨row, read, made⟩
    rwa [← ofFlat_eq_ok.mp (mapError_eq_ok.mp made)]
  · intro read
    exact ⟨_, read, mapError_eq_ok.mpr (ofFlat_eq_ok.mpr rfl)⟩

/-- A transaction is read from a document exactly if the document gives its flat record. -/
theorem read_eq_ok {d : Doc} :
    form.read source d = .ok t ↔ ∃ es, flat.Gives d es ∧ t.FlatMembers source es := by
  rw [read_eq_ok_iff_flat, RecordForm.read_eq_ok (by decide)]
  refine exists_congr fun es => and_congr_right fun _ => ?_
  rw [RecordForm.admits_strict_iff rfl, allOf_flatRow, given_type]
  constructor
  · rintro ⟨⟨once, known⟩, tag, header, payload⟩
    have own := payload t.payload.type
    rw [Assignment.row_ofTxn] at own
    exact ⟨once, known, tag, header, own,
      fun u other => (given_foreign other once).mp (payload u),
      params_of_given once (payload .assetConfig)⟩
  · rintro ⟨once, known, tag, header, own, foreign, -⟩
    refine ⟨⟨once, known⟩, tag, header, fun u => ?_⟩
    by_cases same : u = t.payload.type
    · subst same
      rw [Assignment.row_ofTxn]
      exact own
    · exact (given_foreign same once).mpr (foreign u same)

/-- A text is read as a transaction exactly if it is one document that gives the flat record of
the transaction, be it by name or as a list of values in order. -/
theorem ofJson_eq_ok_iff_flat (text : String) (t : Transaction) :
    (ofJson text : Except Problem Transaction) = .ok t ↔
      ∃ d es, Doc.parse text = (d, true) ∧ flat.Gives d es ∧ t.FlatMembers .text es := by
  show form.parse text = .ok t ↔ _
  rw [Form.parse_eq_ok]
  refine exists_congr fun d => ?_
  rw [read_eq_ok, exists_and_left]

/-- A list of one tag is a transaction, and no record. -/
theorem ofJson_list_of_tag : ofJson "[\"pay\"]" = .ok (⟨default, .payment default⟩ : Transaction) ∧
    ∀ es, (Doc.parse "[\"pay\"]").1 ≠ .record (named es) .closed := by
  have text : (Json.list [.text "pay"]).compact = "[\"pay\"]" := by
    decide +kernel
  have printable : (Json.list [.text "pay"]).Printable :=
    .list fun v hv => List.mem_singleton.mp hv ▸ .text "pay"
  have parsed := parse_of_spells (spells_compact printable)
  rw [text] at parsed
  refine ⟨?_, fun es => by rw [parsed]; exact nofun⟩
  show form.parse _ = _
  rw [Form.parse, parsed]
  rfl

end Transaction

end LedgerCodec
