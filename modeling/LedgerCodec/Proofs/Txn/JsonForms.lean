import LedgerCodec.Proofs.Txn.InputPaths
/-!
# Payloads and transactions in JSON

A payload is written as one record with its tag, and its reader puts members
aside until the tag is known. A transaction is written as its header and its
payload, and its reader knows the fields of all types. Both read back what is
written: `Payload.lawful_form` and `Transaction.lawful_form`.
-/

namespace LedgerCodec

/-! ## The records of payloads -/

namespace AssetParams

theorem lawful_form : (Record.form : Json.Form AssetParams).Lawful :=
  Record.lawful_form (by decide) lawful_forms

end AssetParams

namespace Payload

theorem lawful_forms (t : TxnType) : (fieldsOf t).All fun f => f.kind.form.Lawful := by
  cases t with
  | payment => exact Payment.lawful_forms
  | keyRegistration => exact KeyRegistration.lawful_forms
  | assetConfig => exact ⟨Json.Form.lawful_number _, AssetParams.lawful_form⟩
  | assetTransfer => exact AssetTransfer.lawful_forms
  | assetFreeze => exact AssetFreeze.lawful_forms

/-- The keys in JSON that a type has beside those of the header. -/
def names (t : TxnType) : List String :=
  Json.Members.names (fieldsOf t).members

theorem nodup_names (t : TxnType) : (names t).Nodup := by
  cases t <;> decide

end Payload

theorem Payment.lawful_form : (Record.form : Json.Form Payment).Lawful :=
  Record.lawful_form (Payload.nodup_names .payment) (Payload.lawful_forms .payment)

theorem KeyRegistration.lawful_form : (Record.form : Json.Form KeyRegistration).Lawful :=
  Record.lawful_form (Payload.nodup_names .keyRegistration)
    (Payload.lawful_forms .keyRegistration)

theorem AssetConfig.lawful_form : (Record.form : Json.Form AssetConfig).Lawful :=
  Record.lawful_form (Payload.nodup_names .assetConfig) (Payload.lawful_forms .assetConfig)

theorem AssetTransfer.lawful_form : (Record.form : Json.Form AssetTransfer).Lawful :=
  Record.lawful_form (Payload.nodup_names .assetTransfer) (Payload.lawful_forms .assetTransfer)

theorem AssetFreeze.lawful_form : (Record.form : Json.Form AssetFreeze).Lawful :=
  Record.lawful_form (Payload.nodup_names .assetFreeze) (Payload.lawful_forms .assetFreeze)

/-! ## Values that are put aside -/

namespace Json.Form

/-- Whatever a form writes can be put aside. -/
def Holdable {τ : Type} (f : Form τ) (levels : Nat) : Prop :=
  ∀ x, (f.write x).doc.isHeld levels = true

variable {levels : Nat}

theorem holdable_number {τ : Type} {w : Width τ} : (number w).Holdable levels := by
  intro n
  simp [number, doc, Doc.isHeld]

theorem holdable_bool : bool.Holdable levels := by
  intro b
  simp [bool, doc, Doc.isHeld]

theorem holdable_text : text.Holdable levels := by
  intro s
  simp [text, doc, Doc.isHeld]

theorem holdable_fixed {role : Role} : (fixed role).Holdable levels := by
  intro x
  simp [fixed, doc, Doc.isHeld]

end Json.Form

/-- What fields write can be put aside if their forms can. -/
theorem Fields.isHeld_write {σ : Type} {l : Fields σ} {levels : Nat}
    (distinct : (Json.Members.names l.members).Nodup)
    (forms : l.All fun f => f.kind.form.Holdable levels) (x : σ) :
    ∀ e ∈ Json.Members.write l.members x, e.2.doc.isHeld levels = true := by
  refine (spelled_write distinct x).forall_mem (P := fun _ v => v.doc.isHeld levels = true) ?_
  refine Layout.allOf_map.mpr ((forms.allOf x).imp fun f y holdable v hv => ?_)
  rw [hv]
  exact holdable y

/-- A record of such fields can be put aside, one level further out. -/
theorem Record.holdable_form {ρ : Type} [Record ρ] {levels : Nat}
    (distinct : (Json.Members.names (fields (ρ := ρ)).members).Nodup)
    (forms : (fields (ρ := ρ)).All fun f => f.kind.form.Holdable levels) :
    (Record.form : Json.Form ρ).Holdable (levels + 1) := by
  intro x
  have held := Fields.isHeld_write distinct forms (row x)
  show (Json.record (membersOf x)).doc.isHeld (levels + 1) = true
  rw [Json.doc, Json.docMembers_eq, Json.Doc.isHeld, Bool.and_eq_true, List.all_eq_true]
  refine ⟨rfl, fun m hm => ?_⟩
  obtain ⟨e, he, rfl⟩ := List.mem_map.mp hm
  exact held e he

namespace Payload

open Json.Form

theorem holdable_forms {levels : Nat} (t : TxnType) :
    (fieldsOf t).All fun f => f.kind.form.Holdable (levels + 1) := by
  cases t with
  | payment => exact ⟨holdable_fixed, holdable_number, holdable_fixed⟩
  | keyRegistration =>
    exact ⟨holdable_fixed, holdable_fixed, holdable_number, holdable_number, holdable_number⟩
  | assetConfig =>
    exact ⟨holdable_number, Record.holdable_form (by decide)
      ⟨holdable_number, holdable_number, holdable_bool, holdable_text, holdable_text,
        holdable_text, holdable_fixed, holdable_fixed, holdable_fixed, holdable_fixed,
        holdable_fixed⟩⟩
  | assetTransfer =>
    exact ⟨holdable_number, holdable_number, holdable_fixed, holdable_fixed, holdable_fixed⟩
  | assetFreeze => exact ⟨holdable_fixed, holdable_number, holdable_bool⟩

/-! ## Payloads -/

theorem members_eq (p : Payload) : p.members =
    (typeKey, .text p.type.tag) :: Json.Members.write (fieldsOf p.type).members p.row := by
  cases p <;> rfl

/-- Members without the tag that can be held are put aside one after the other. -/
theorem foldlM_holdMember {ms : List (String × Json)}
    (held : ∀ e ∈ ms, e.1 ≠ typeKey ∧ e.2.doc.isHeld heldLevels = true) (aside : Held) :
    (Json.docMembers ms).foldlM holdMember aside =
      .ok { aside with members := (Json.docMembers ms).reverse ++ aside.members } := by
  induction ms generalizing aside with
  | nil => rfl
  | cons e ms ih =>
    obtain ⟨key, v⟩ := e
    rw [List.forall_mem_cons] at held
    obtain ⟨⟨other, fits⟩, held⟩ := held
    have first : holdMember aside (some key, v.doc) =
        .ok { aside with members := (some key, v.doc) :: aside.members } := by
      simp only [holdMember, hold, if_neg other, fits, if_true, bind_ok]
    rw [Json.docMembers, Json.docMember, List.foldlM_cons, first, bind_ok, ih held]
    simp

theorem readRecord_write (p : Payload) :
    readRecord (Json.record (Json.Members.write (fieldsOf p.type).members p.row)).doc p.type =
      .ok p := by
  have back {ρ : Type} [Record ρ] (lawful : (Record.form : Json.Form ρ).Lawful)
      (make : ρ → Payload) (x : ρ) : ((Record.form : Json.Form ρ).read .buffer
        (Json.record (Record.membersOf x)).doc).map make = .ok (make x) := by
    have read : (Record.form : Json.Form ρ).read .buffer (Json.record (Record.membersOf x)).doc =
        .ok x := lawful.read_write .buffer x
    rw [read]
    rfl
  cases p with
  | payment p => exact back Payment.lawful_form payment p
  | keyRegistration k => exact back KeyRegistration.lawful_form keyRegistration k
  | assetConfig c => exact back AssetConfig.lawful_form assetConfig c
  | assetTransfer t => exact back AssetTransfer.lawful_form assetTransfer t
  | assetFreeze f => exact back AssetFreeze.lawful_form assetFreeze f

theorem typeKey_not_mem_names (t : TxnType) : typeKey ∉ names t := by
  cases t <;> decide

/-- A payload is read back from its members, whatever its type. -/
theorem lawful_form : Payload.form.Lawful where
  printable p := by
    have record : (Json.record (Json.Members.write (fieldsOf p.type).members p.row)).Printable :=
      (Fields.spelled_write (nodup_names _) _).printable
        (Fields.printable_of_spells (lawful_forms _))
    cases record with
    | record printable =>
      show (Json.record p.members).Printable
      rw [members_eq]
      exact .record (List.forall_mem_cons.mpr ⟨.text _, printable⟩)
  read_write source p := by
    have held : ∀ e ∈ Json.Members.write (fieldsOf p.type).members p.row,
        e.1 ≠ typeKey ∧ e.2.doc.isHeld heldLevels = true := by
      intro e he
      refine ⟨fun same => typeKey_not_mem_names p.type ?_,
        Fields.isHeld_write (nodup_names _) (holdable_forms _) _ e he⟩
      rw [names, ← Json.Members.keys_write _ p.row, ← same]
      exact List.mem_map_of_mem he
    have tag : holdMember ⟨none, []⟩ (some typeKey, .text (some p.type.tag)) =
        .ok ⟨some p.type, []⟩ := by
      simp [holdMember, readTag, Json.Form.readText, Json.Form.readTag]
    show Payload.form.read source (Json.record p.members).doc = .ok p
    rw [members_eq, Json.doc, Json.docMembers, Json.docMember, Json.doc, form]
    simp only [List.foldlM_cons, tag, bind_ok, foldlM_holdMember held, Json.Ending.isClosed,
      if_true, List.append_nil, List.reverse_reverse]
    exact readRecord_write p

end Payload

/-! ## Transactions -/

namespace Assignment

variable {t : Transaction} {u : TxnType}

/-- The fields of a transaction, and zeros for those of other types. -/
def ofTxn (t : Transaction) : Assignment where
  header := t.header
  payment := t.payment
  keyRegistration := t.keyRegistration
  assetConfig := t.assetConfig
  assetTransfer := t.assetTransfer
  assetFreeze := t.assetFreeze

theorem txn_ofTxn (t : Transaction) : (ofTxn t).txn t.type = t := by
  obtain ⟨header, payload⟩ := t
  cases payload <;> rfl

theorem row_ofTxn (t : Transaction) : (ofTxn t).row t.payload.type = t.payload.row := by
  obtain ⟨header, payload⟩ := t
  cases payload <;> rfl

/-- Every field of a transaction that belongs to another type is zero. -/
theorem absent_ofTxn (other : u ≠ t.type) :
    (Payload.fieldsOf u).AllOf (fun f y => f.absent = some y) ((ofTxn t).row u) := by
  have zeros : (ofTxn t).row u =
      (Assignment.mk t.header default default default default default).row u := by
    obtain ⟨header, payload⟩ := t
    cases payload <;> cases u <;> first | rfl | exact absurd rfl other
  rw [zeros]
  cases u with
  | payment => exact ⟨rfl, rfl, rfl⟩
  | keyRegistration => exact ⟨rfl, rfl, rfl, rfl, rfl⟩
  | assetConfig => exact ⟨rfl, rfl⟩
  | assetTransfer => exact ⟨rfl, rfl, rfl, rfl, rfl⟩
  | assetFreeze => exact ⟨rfl, rfl, rfl⟩

/-- A transaction sets no fields of other types. -/
theorem own_ofTxn (key : String) : ¬ (ofTxn t).SetsForeign t.type key := by
  rintro ⟨u, other, set⟩
  refine set ((absent_ofTxn other).imp ?_)
  intro τ f y absent _
  exact absent

end Assignment

namespace Transaction

variable {t : Transaction}

/-- The keys in JSON of transactions of a type. -/
def namesFor (t : TxnType) : List String :=
  Json.Members.names (Fields.members (Record.fields (ρ := Header))) ++ Payload.typeKey ::
    Payload.names t

/-- The members of a transaction. -/
def members (t : Transaction) : List (String × Json) :=
  Record.membersOf t.header ++ t.payload.members

theorem keys_members (t : Transaction) : t.members.map Prod.fst = namesFor t.type := by
  rw [members, Payload.members_eq, List.map_append, List.map_cons, Json.Members.keys_write]
  exact congrArg (· ++ _) (Json.Members.keys_write _ _)

theorem nodup_keys_members (t : Transaction) : (t.members.map Prod.fst).Nodup := by
  rw [keys_members]
  cases t.type <;> decide

/-- No type's fields are written under the keys of another type's transaction. -/
theorem not_mem_namesFor {type u : TxnType} (other : u ≠ type) :
    ∀ name ∈ Payload.names u, name ∉ namesFor type := by
  cases u <;> cases type <;> first | exact absurd rfl other | decide

theorem holds_payload (u : TxnType) : (Payload.fieldsOf u).jsonSlots.AllOf
    (Slot.Holds fun key => t.members.lookup key) ((Assignment.ofTxn t).row u) := by
  by_cases own : u = t.payload.type
  · subst own
    rw [Assignment.row_ofTxn]
    refine Fields.holds_write t.nodup_keys_members fun e he => ?_
    rw [members, Payload.members_eq]
    exact List.mem_append_right _ (List.mem_cons_of_mem _ he)
  · have names := (Payload.fieldsOf u).all_mem_collect fun f => f.name
    have laws := (names.allOf _).and (Assignment.absent_ofTxn own)
    refine Layout.allOf_map.mpr (laws.imp fun f y hy => .inr ⟨?_, hy.2⟩)
    refine lookup_eq_none.mpr fun met => ?_
    rw [keys_members] at met
    refine not_mem_namesFor own f.name ?_ met
    rw [Payload.names, Fields.names_members, Fields.jsonSlots, Layout.collect_map]
    exact hy.1

/-- Where the parameters of an asset are held as they are written, they are held in one of their
spellings. -/
theorem holds_slots {u : TxnType} {held : String → Option Json} {x : Payload.Row u}
    (h : (Payload.fieldsOf u).jsonSlots.AllOf (Slot.Holds held) x) :
    (Assignment.payloadJsonSlots u).AllOf (Slot.Holds held) x := by
  cases u with
  | assetConfig =>
    refine ⟨h.1, ?_⟩
    obtain ⟨v, hv, rfl⟩ | ⟨hv, zero⟩ := h.2
    · exact .inl ⟨_, hv, _, rfl, Fields.spelled_write (by decide) _⟩
    · exact .inr ⟨hv, zero⟩
  | _ => exact h

/-- The members of a transaction are one spelling of its fields. -/
theorem spelled_members (t : Transaction) :
    Spelled Assignment.jsonSlots ((Assignment.ofTxn t).fullRow t.type) t.members := by
  have tag : t.members.lookup Payload.typeKey = some (.text t.type.tag) := by
    refine (lookup_eq_some t.nodup_keys_members).mpr ?_
    rw [members, Payload.members_eq]
    exact List.mem_append_right _ List.mem_cons_self
  have header := Fields.holds_write (l := Record.fields) (x := Record.row t.header)
    t.nodup_keys_members fun e he => List.mem_append_left _ he
  have known : ∀ name ∈ namesFor t.type, name ∈ Assignment.jsonSlots.collect fun s => s.key := by
    cases t.type <;> decide
  refine .of_holds t.nodup_keys_members (fun e he => known e.1 ?_) ⟨.inl ⟨_, tag, rfl⟩, header,
    holds_slots (t.holds_payload _), holds_slots (t.holds_payload _),
    holds_slots (t.holds_payload _), holds_slots (t.holds_payload _),
    holds_slots (t.holds_payload _)⟩
  rw [← keys_members]
  exact List.mem_map_of_mem he

/-- A transaction is read back from its members, whatever its type. -/
theorem lawful_form : Transaction.form.Lawful where
  printable t := Assignment.printable t.spelled_members
  read_write source t := by
    have read : Transaction.flat.read source (Json.record t.members).doc =
        .ok ((Assignment.ofTxn t).flatRow t.type) :=
      Assignment.read_flat t.spelled_members source
    show Transaction.flat.read source (Json.record t.members).doc >>= _ = _
    rw [read, bind_ok, Assignment.ofFlat_ok Assignment.own_ofTxn, Assignment.txn_ofTxn]
    rfl

end Transaction

end LedgerCodec
