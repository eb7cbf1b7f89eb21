import LedgerCodec.Proofs.Json.Members
import LedgerCodec.Proofs.Record.Exact
/-!
# Spellings of a record

A row can be written as a wire map or as a JSON record in many ways: its entries
come in any order, and any of those that are zero may be left out. `Spelled` says
that entries are one of these ways. Whichever it is, the wire reader and the JSON
reader read the row back.
-/

namespace LedgerCodec

open Wire

/-! ## Slots -/

/-- A place among entries for a value of a type. -/
structure Slot (α τ : Type) where
  key : String
  /-- What may stand there for a value. -/
  spells : τ → α → Prop
  /-- Whether a value may be left out. -/
  zero : τ → Prop

/-- The entries are those of a row, in any order, less some that are zero. -/
structure Spelled {α σ : Type} (l : Layout (Slot α) σ) (x : σ) (es : List (String × α)) : Prop where
  distinct : (es.map Prod.fst).Nodup
  known : ∀ e ∈ es, e.1 ∈ l.collect fun s => s.key
  /-- What stands there is for the value of the slot. -/
  spells : l.AllOf (fun s y => ∀ v, (s.key, v) ∈ es → s.spells y v) x
  /-- Nothing is left out but zeros. -/
  complete : l.AllOf (fun s y => s.key ∈ es.map Prod.fst ∨ s.zero y) x

/-- What a slot holds: something for its value, or nothing for zero. -/
def Slot.Holds {α τ : Type} (held : String → Option α) (s : Slot α τ) (y : τ) : Prop :=
  (∃ v, held s.key = some v ∧ s.spells y v) ∨ held s.key = none ∧ s.zero y

namespace Spelled

variable {α σ : Type} {l : Layout (Slot α) σ} {x : σ} {es : List (String × α)}

theorem holds (h : Spelled l x es) : l.AllOf (Slot.Holds fun key => es.lookup key) x := by
  refine (h.spells.and h.complete).imp fun s y hy => ?_
  obtain ⟨spells, complete⟩ := hy
  cases held : es.lookup s.key with
  | none => exact .inr ⟨held, complete.resolve_left (lookup_eq_none.mp held)⟩
  | some v => exact .inl ⟨v, held, spells v (mem_of_lookup held)⟩

theorem of_holds (distinct : (es.map Prod.fst).Nodup)
    (known : ∀ e ∈ es, e.1 ∈ l.collect fun s => s.key)
    (h : l.AllOf (Slot.Holds fun key => es.lookup key) x) : Spelled l x es where
  distinct := distinct
  known := known
  spells := by
    refine h.imp fun s y hy v hv => ?_
    rw [Slot.Holds, show es.lookup s.key = some v from (lookup_eq_some distinct).mpr hv] at hy
    simpa using hy
  complete := by
    refine h.imp fun s y hy => ?_
    rcases hy with ⟨v, hv, -⟩ | ⟨-, zero⟩
    · have met : s.key ∈ es.map Prod.fst := List.mem_map_of_mem (f := Prod.fst) (mem_of_lookup hv)
      exact .inl met
    · exact .inr zero

/-- What holds of everything that may stand in a slot holds of the entries. -/
theorem forall_mem (h : Spelled l x es) {P : String → α → Prop}
    (slots : l.AllOf (fun s y => ∀ v, s.spells y v → P s.key v) x) : ∀ e ∈ es, P e.1 e.2 := by
  intro e he
  refine (h.spells.and slots).of_mem_collect (h.known e he) fun s y key hy => ?_
  obtain ⟨key', v⟩ := e
  subst key
  exact hy.2 v (hy.1 v he)

theorem length_le (h : Spelled l x es) : es.length ≤ (l.collect fun s => s.key).length := by
  have known : es.map Prod.fst ⊆ l.collect fun s => s.key := by
    intro key hk
    obtain ⟨e, he, rfl⟩ := List.mem_map.mp hk
    exact h.known e he
  have := List.Nodup.length_le_of_subset h.distinct known
  rwa [List.length_map] at this

end Spelled

/-! ## Slots of fields -/

/-- The slot of a field in a wire map. -/
def Field.wireSlot {τ : Type} (f : Field τ) : Slot Value τ where
  key := f.key
  spells y v := v = f.kind.writer.write y
  zero y := f.absent = some y

/-- The slot of a field in a JSON record. -/
def Field.jsonSlot {τ : Type} (f : Field τ) : Slot Json τ where
  key := f.name
  spells y v := v = f.kind.form.write y
  zero y := f.absent = some y

namespace Fields

/-- The slots of all fields in a wire map. -/
def wireSlots {σ : Type} (l : Fields σ) : Layout (Slot Value) σ :=
  l.map Field.wireSlot

/-- The slots of all fields in a JSON record. -/
def jsonSlots {σ : Type} (l : Fields σ) : Layout (Slot Json) σ :=
  l.map Field.jsonSlot

end Fields

/-- The slot of a field that holds a record, in a wire map: a map with one of its spellings. -/
def Field.wireMapSlot {ρ : Type} [Record ρ] (f : Field ρ) : Slot Value ρ where
  key := f.key
  spells y v := ∃ es, v = .map es ∧ Spelled (Fields.wireSlots Record.fields) (Record.row y) es
  zero y := f.absent = some y

/-- The slot of a field that holds a record, in a JSON record: a record with one of its spellings. -/
def Field.jsonRecordSlot {ρ : Type} [Record ρ] (f : Field ρ) : Slot Json ρ where
  key := f.name
  spells y v := ∃ ms, v = .record ms ∧ Spelled (Fields.jsonSlots Record.fields) (Record.row y) ms
  zero y := f.absent = some y

/-! ## Writing a spelling -/

section Write

variable {σ : Type} {x : σ} {levels : Nat}

/-- The format carries a spelling if it carries its keys and what stands in its slots. -/
theorem Spelled.fits {l : Layout (Slot Value) σ} {es : List (String × Value)} (h : Spelled l x es)
    (few : (l.collect fun s => s.key).length < lengthBound)
    (short : ∀ key ∈ l.collect fun s => s.key, (utf8 key).length < lengthBound)
    (slots : l.AllOf (fun s y => ∀ v, s.spells y v → Fits levels v) x) :
    Fits (levels + 1) (.map es) := by
  refine .map (Nat.lt_of_le_of_lt h.length_le few) (fun e he => ?_) ?_
  · exact short e.1 (h.known e he)
  · exact h.forall_mem (P := fun _ v => Fits levels v) slots

theorem Fields.fits_of_spells {l : Fields σ} (fit : l.Fit levels x) :
    l.wireSlots.AllOf (fun s y => ∀ v, s.spells y v → Fits levels v) x := by
  refine Layout.allOf_map.mpr (fit.imp fun f y fits v hv => ?_)
  rw [hv]
  exact fits

/-- A spelling can be printed if what stands in its slots can. -/
theorem Spelled.printable {l : Layout (Slot Json) σ} {ms : List (String × Json)} (h : Spelled l x ms)
    (slots : l.AllOf (fun s y => ∀ v, s.spells y v → v.Printable) x) :
    (Json.record ms).Printable :=
  .record (h.forall_mem (P := fun _ v => v.Printable) slots)

theorem Fields.printable_of_spells {l : Fields σ} (forms : l.All fun f => f.kind.form.Lawful) :
    l.jsonSlots.AllOf (fun s y => ∀ v, s.spells y v → v.Printable) x := by
  refine Layout.allOf_map.mpr ((forms.allOf x).imp fun f y lawful v hv => ?_)
  rw [hv]
  exact lawful.printable y

end Write

/-! ## Reading a spelling from the wire -/

/-- A field that may be absent, and then has the same value on the wire and in JSON. -/
def Field.Optional {τ : Type} (f : Field τ) : Prop :=
  ∃ d, f.absent = some d ∧ f.kind.reader.absent f.key = .ok d

theorem Field.Optional.absent_iff {τ : Type} {f : Field τ} {levels : Nat} (h : f.Optional)
    (lawful : f.kind.Lawful levels) {y : τ} :
    f.absent = some y ↔ f.kind.writer.isZero y = true := by
  obtain ⟨d, hd, read⟩ := h
  rw [← lawful.absent_iff f.key y, hd, read, Option.some.injEq, Except.ok.injEq]

namespace Fields

variable {σ : Type} {l : Fields σ} {levels : Nat} {held : String → Option Value} {x : σ}

theorem ofHeld_of_holds (kinds : l.All fun f => f.kind.Lawful levels)
    (optional : l.All Field.Optional) (h : l.wireSlots.AllOf (Slot.Holds held) x) :
    l.AllOf (fun f y => f.kind.reader.ofHeld f.key (held f.key) = .ok y) x := by
  refine (((kinds.allOf x).and (optional.allOf x)).and (Layout.allOf_map.mp h)).imp ?_
  rintro τ f y ⟨⟨lawful, optional⟩, ⟨v, hv, rfl⟩ | ⟨hv, zero⟩⟩
  · show f.kind.reader.ofHeld f.key (held f.wireSlot.key) = _
    rw [hv]
    exact lawful.read_write f.key y
  · show f.kind.reader.ofHeld f.key (held f.wireSlot.key) = _
    rw [hv]
    exact (lawful.absent_iff f.key y).mpr ((optional.absent_iff lawful).mp zero)

/-- A key holds nothing or a zero exactly for the value that may be left out. -/
def ZeroAs {τ : Type} (held : String → Option Value) (f : Field τ) (y : τ) : Prop :=
  (held f.key).all Value.isZero = true ↔ f.absent = some y

theorem zeroAs_of_holds (kinds : l.All fun f => f.kind.Lawful levels)
    (optional : l.All Field.Optional)
    (isZero_of_write : l.All fun f => ∀ y, (f.kind.writer.write y).isZero = true →
      f.kind.writer.isZero y = true) (h : l.wireSlots.AllOf (Slot.Holds held) x) :
    l.AllOf (ZeroAs held) x := by
  have laws := ((kinds.allOf x).and (optional.allOf x)).and (isZero_of_write.allOf x)
  refine (laws.and (Layout.allOf_map.mp h)).imp ?_
  rintro τ f y ⟨⟨⟨lawful, optional⟩, isZero_of_write⟩, ⟨v, hv, rfl⟩ | ⟨hv, zero⟩⟩
  · rw [ZeroAs, show held f.key = _ from hv, optional.absent_iff lawful]
    exact ⟨isZero_of_write y, lawful.isZero_write⟩
  · rw [ZeroAs, show held f.key = _ from hv]
    exact ⟨fun _ => zero, fun _ => rfl⟩

end Fields

namespace Record

variable {ρ : Type} [Record ρ] {levels : Nat} {y : ρ} {es : List (String × Value)}

theorem ne_nil_of_spelled (l : (fields (ρ := ρ)).Lawful levels)
    (h : Spelled (Fields.wireSlots fields) (row y) es) : ∀ e ∈ es, e.2 ≠ .nil := by
  refine h.forall_mem (P := fun _ v => v ≠ .nil) ?_
  refine Layout.allOf_map.mpr ((l.kinds.allOf (row y)).imp fun f x lawful v hv => ?_)
  rw [hv]
  exact lawful.write_ne_nil x

/-- A record is read from each of its spellings. -/
theorem decodeValue_of_spelled (l : (fields (ρ := ρ)).Lawful levels)
    (optional : (fields (ρ := ρ)).All Field.Optional)
    (h : Spelled (Fields.wireSlots fields) (row y) es) (key : String) :
    decodeValue key (.map es) = .ok y := by
  -- Nothing is spelled by nothing, so what a key holds is what it finds.
  have held : (fun k => (⟨es⟩ : Pending).find? k) = fun k => es.lookup k :=
    funext fun k => Pending.find?_of_ne_nil (ne_nil_of_spelled l h) k
  have read : (Fields.readBy fields fun k => es.lookup k) = .ok (row y) :=
    Fields.readBy_eq_ok.mpr (Fields.ofHeld_of_holds l.kinds optional h.holds)
  rw [decodeValue_map l.distinct key h.distinct, held, read, bind_ok,
    Pending.finish_without fun e he => ?known, bind_ok, ofRow_row]
  case known =>
    have known := h.known e ((sortByKey_perm es).mem_iff.mp he)
    rwa [Fields.wireSlots, Layout.collect_map] at known

/-- A spelling is zero on the wire exactly if every field is. -/
theorem isZero_of_spelled (l : (fields (ρ := ρ)).Lawful levels)
    (optional : (fields (ρ := ρ)).All Field.Optional)
    (isZero_of_write : (fields (ρ := ρ)).All fun f => ∀ x,
      (f.kind.writer.write x).isZero = true → f.kind.writer.isZero x = true)
    (h : Spelled (Fields.wireSlots fields) (row y) es) :
    (Value.map es).isZero = true ↔ (fields (ρ := ρ)).AllOf (fun f x => f.absent = some x) (row y) := by
  have zero := Fields.zeroAs_of_holds l.kinds optional isZero_of_write h.holds
  refine Value.entriesZero_iff.trans ?_
  constructor
  · intro all
    refine zero.imp fun f x hx => hx.mp ?_
    show (es.lookup f.key).all Value.isZero = true
    cases held : es.lookup f.key with
    | none => rfl
    | some v => exact all _ (mem_of_lookup held)
  · intro all e he
    have known := h.known e he
    rw [Fields.wireSlots, Layout.collect_map] at known
    refine (zero.and all).of_mem_collect known fun f x key hx => ?_
    have here : (es.lookup f.key).all Value.isZero = true := hx.1.mpr hx.2
    rwa [show f.key = e.1 from key, (lookup_eq_some h.distinct).mpr he] at here

end Record

/-! ## Reading a spelling from JSON -/

namespace Fields

variable {σ : Type} {l : Fields σ} {x : σ} {ms : List (String × Json)}

theorem reads_of_spells (forms : l.All fun f => f.kind.form.Lawful) (source : Json.Source)
    (h : l.jsonSlots.AllOf (fun s y => ∀ v, (s.key, v) ∈ ms → s.spells y v) x) :
    l.members.AllOf (fun m y => ∀ v, (m.name, v) ∈ ms → m.form.read source v.doc = .ok y) x := by
  refine Layout.allOf_map.mpr (((forms.allOf x).and (Layout.allOf_map.mp h)).imp ?_)
  intro τ f y hy v hv
  rw [hy.2 v hv]
  exact hy.1.read_write source y

theorem present_of_complete {keys : List String}
    (h : l.jsonSlots.AllOf (fun s y => s.key ∈ keys ∨ s.zero y) x) :
    l.members.AllOf (fun m y => m.name ∈ keys ∨ m.absent = some y) x :=
  Layout.allOf_map.mpr (Layout.allOf_map.mp h)

theorem names_members (l : Fields σ) :
    Json.Members.names l.members = l.jsonSlots.collect fun s => s.key := by
  rw [jsonSlots, Layout.collect_map]
  exact Layout.collect_map _ _ l

end Fields

/-- A record is read from each of its spellings in JSON. -/
theorem Record.read_of_spelled {ρ : Type} [Record ρ] {y : ρ} {ms : List (String × Json)}
    (distinct : (Json.Members.names (fields (ρ := ρ)).members).Nodup)
    (forms : (fields (ρ := ρ)).All fun f => f.kind.form.Lawful) (source : Json.Source)
    (h : Spelled (Fields.jsonSlots fields) (row y) ms) :
    form.read source (Json.record ms).doc = .ok y := by
  have read : (json ρ).read source (Json.record ms).doc = .ok (row y) :=
    Json.RecordForm.read_record distinct h.distinct
      (fun e he => Fields.names_members (fields (ρ := ρ)) ▸ h.known e he)
      (Fields.reads_of_spells forms source h.spells) (Fields.present_of_complete h.complete)
  show ((json ρ).read source _).map ofRow = _
  rw [read, Except.map, ofRow_row]

/-! ## The members that are written -/

/-- Entries that hold every member of a row spell it in JSON. -/
theorem Fields.holds_write {σ : Type} {l : Fields σ} {x : σ} {ms : List (String × Json)}
    (distinct : (ms.map Prod.fst).Nodup) (h : ∀ e ∈ Json.Members.write l.members x, e ∈ ms) :
    l.jsonSlots.AllOf (Slot.Holds fun key => ms.lookup key) x := by
  refine Layout.allOf_map.mpr ((Layout.allOf_map.mp (Json.Members.mem_write l.members x)).imp ?_)
  intro τ f y written
  exact .inl ⟨_, (lookup_eq_some distinct).mpr (h _ written), rfl⟩

theorem Fields.spelled_write {σ : Type} {l : Fields σ}
    (distinct : (Json.Members.names l.members).Nodup) (x : σ) :
    Spelled l.jsonSlots x (Json.Members.write l.members x) := by
  have once : ((Json.Members.write l.members x).map Prod.fst).Nodup := by
    rwa [Json.Members.keys_write]
  refine .of_holds once (fun e he => ?_) (holds_write once fun e he => he)
  rw [← names_members, ← Json.Members.keys_write l.members x]
  exact List.mem_map_of_mem he

/-- A record is read back from its members. -/
theorem Record.lawful_form {ρ : Type} [Record ρ]
    (distinct : (Json.Members.names (fields (ρ := ρ)).members).Nodup)
    (forms : (fields (ρ := ρ)).All fun f => f.kind.form.Lawful) :
    (Record.form : Json.Form ρ).Lawful where
  printable x :=
    (Fields.spelled_write distinct (row x)).printable (Fields.printable_of_spells forms)
  read_write source x :=
    read_of_spelled distinct forms source (Fields.spelled_write distinct (row x))

end LedgerCodec
