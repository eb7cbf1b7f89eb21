import LedgerCodec.Proofs.Record.Exact
/-!
# Zeros that the encoder keeps

The encoder leaves a field out by what the field is for, and `Value.isZero` judges
a wire value without knowing that. The two agree on every kind of field but one:
a blob of any length is kept as soon as it has a byte, even a zero. So the zeros
that are kept are such blobs, and maps of nothing else. `EveryEntry` speaks of all
entries of a value, and `Record.unmistaken` gives the records in which no zero is
kept.
-/

namespace LedgerCodec

open Wire

/-! ## Entries at any depth -/

/-- Every entry of every map in the value has a property. -/
inductive Wire.Value.EveryEntry (P : String → Value → Prop) : Value → Prop
  | nil : EveryEntry P .nil
  | bool (b : Bool) : EveryEntry P (.bool b)
  | uint (n : UInt64) : EveryEntry P (.uint n)
  | int (n : Int64) : EveryEntry P (.int n)
  | str (s : String) : EveryEntry P (.str s)
  | bin (bs : Bytes) : EveryEntry P (.bin bs)
  | array {items : List Value} (inside : ∀ v ∈ items, EveryEntry P v) : EveryEntry P (.array items)
  | map {entries : List (String × Value)} (here : ∀ e ∈ entries, P e.1 e.2)
      (inside : ∀ e ∈ entries, EveryEntry P e.2) : EveryEntry P (.map entries)

theorem Entries.everyEntry_toValue {P : String → Value → Prop} {es : Entries}
    (h : ∀ e ∈ es.list, P e.1 e.2 ∧ e.2.EveryEntry P) : es.toValue.EveryEntry P := by
  have sorted := sortByKey_perm es.list
  exact .map (fun e he => (h e (sorted.mem_iff.mp he)).1)
    fun e he => (h e (sorted.mem_iff.mp he)).2

theorem Entries.isZero_toValue {es : Entries} :
    es.toValue.isZero = true ↔ ∀ e ∈ es.list, e.2.isZero = true := by
  have sorted := sortByKey_perm es.list
  rw [toValue, Value.isZero, Value.entriesZero_iff]
  exact ⟨fun h e he => h e (sorted.mem_iff.mpr he), fun h e he => h e (sorted.mem_iff.mp he)⟩

/-! ## Zeros that are kept -/

/-- The entries that are kept although their values are zero on the wire: a note or a program of
zero bytes, and a logic signature with nothing but such a program. -/
inductive KeptZero : String → Value → Prop
  | note {bs : Bytes} (some : bs ≠ []) (zeros : bs.allZero = true) : KeptZero "note" (.bin bs)
  | logic {bs : Bytes} (some : bs ≠ []) (zeros : bs.allZero = true) : KeptZero "l" (.bin bs)
  | lsig {bs : Bytes} (some : bs ≠ []) (zeros : bs.allZero = true) :
    KeptZero "lsig" (.map [("l", .bin bs)])

theorem KeptZero.isZero {key : String} {v : Value} (h : KeptZero key v) : v.isZero = true := by
  cases h with
  | note _ zeros => exact zeros
  | logic _ zeros => exact zeros
  | lsig _ zeros =>
    refine Value.entriesZero_iff.mpr fun e he => ?_
    rw [List.mem_singleton.mp he]
    exact zeros

/-- An entry is zero on the wire exactly if it is one of these. -/
def Judged (key : String) (v : Value) : Prop :=
  v.isZero = true ↔ KeptZero key v

theorem judged_of_nonzero {key : String} {v : Value} (nonzero : v.isZero = false) :
    Judged key v := by
  refine ⟨fun zero => ?_, KeptZero.isZero⟩
  rw [zero] at nonzero
  cases nonzero

/-! ## Kinds of field -/

/-- A kind of field that keeps no zero of a value, and in what it writes every entry is judged. -/
structure Kind.Unmistaken {τ : Type} (k : Kind τ) (x : τ) : Prop where
  nonzero : k.writer.isZero x = false → (k.writer.write x).isZero = false
  /-- Nor is anything in it, apart from those zeros that are kept. -/
  inside : (k.writer.write x).EveryEntry Judged

namespace Kind

theorem unmistaken_uint64 (n : UInt64) : uint64.Unmistaken n := ⟨id, .uint n⟩

theorem unmistaken_narrow {τ : Type} {w : Width τ} (n : τ) : (narrow w).Unmistaken n :=
  ⟨id, .uint _⟩

theorem unmistaken_bool (b : Bool) : bool.Unmistaken b := ⟨id, .bool b⟩

theorem unmistaken_text (s : String) : text.Unmistaken s := ⟨id, .str s⟩

theorem unmistaken_fixed {role : Role} (x : Fixed role) : (fixed role).Unmistaken x := ⟨id, .bin _⟩

/-- A list is kept if it has items, and a list with items is no zero whatever these are. -/
theorem unmistaken_list {τ : Type} {w : Writer τ} {r : Reader τ} {form : Json.Form (List τ)}
    {xs : List τ} (inside : ∀ x ∈ xs, (w.write x).EveryEntry Judged) :
    (⟨.list w, .list r, form⟩ : Kind (List τ)).Unmistaken xs where
  nonzero kept := by
    show (xs.map w.write).isEmpty = false
    rw [List.isEmpty_map]
    exact kept
  inside := by
    refine .array fun v hv => ?_
    obtain ⟨x, hx, rfl⟩ := List.mem_map.mp hv
    exact inside x hx

end Kind

/-! ## Rows -/

/-- If the field is kept, its entry is judged, and so is every entry in it. -/
def Field.Judged {τ : Type} (f : Field τ) (x : τ) : Prop :=
  f.kind.writer.isZero x = false →
    LedgerCodec.Judged f.key (f.kind.writer.write x) ∧
      (f.kind.writer.write x).EveryEntry LedgerCodec.Judged

theorem Field.judged {τ : Type} (f : Field τ) {x : τ} (h : f.kind.Unmistaken x) : f.Judged x :=
  fun kept => ⟨judged_of_nonzero (h.nonzero kept), h.inside⟩

/-- A blob is kept if it has bytes, whatever these are. -/
theorem Field.judged_blob {name key : String} {absent : Option Bytes} {bs : Bytes}
    (zero : bs ≠ [] → bs.allZero = true → KeptZero key (.bin bs)) :
    Field.Judged ⟨name, key, .blob, absent⟩ bs :=
  fun kept => ⟨⟨zero (List.isEmpty_eq_false_iff.mp kept), KeptZero.isZero⟩, .bin bs⟩

namespace Fields

variable {σ : Type} {l : Fields σ} {x : σ}

/-- No field keeps a zero. -/
def Unmistaken (l : Fields σ) (x : σ) : Prop :=
  l.AllOf (fun f y => f.kind.Unmistaken y) x

theorem Unmistaken.judged (h : l.Unmistaken x) : l.AllOf Field.Judged x :=
  h.imp fun f _ => f.judged

theorem Unmistaken.nonzero (h : l.Unmistaken x) : ∀ e ∈ l.entries x, e.2.isZero = false :=
  forall_mem_entries (P := fun _ v => v.isZero = false) (h.imp fun _ _ => Kind.Unmistaken.nonzero)

theorem judged_entries (h : l.AllOf Field.Judged x) :
    ∀ e ∈ l.entries x, Judged e.1 e.2 ∧ e.2.EveryEntry Judged :=
  forall_mem_entries (P := fun key v => Judged key v ∧ v.EveryEntry Judged) h

end Fields

/-! ## Records -/

/-- A record inside a record is no zero if one of its entries is none. -/
theorem Kind.unmistaken_nested {α : Type} [Canonical α] [JsonForm α] {x : α}
    (some : (entriesOf x).isEmpty = false → ∃ e ∈ (entriesOf x).list, e.2.isZero = false)
    (inside : (entriesOf x).toValue.EveryEntry Judged) : (nested : Kind α).Unmistaken x where
  nonzero kept := by
    obtain ⟨e, he, nonzero⟩ := some kept
    refine Bool.eq_false_iff.mpr fun zero => ?_
    rw [Entries.isZero_toValue.mp zero e he] at nonzero
    cases nonzero
  inside := inside

namespace Record

variable {ρ : Type} [Record ρ] {x : ρ}

theorem everyEntry (h : Layout.AllOf Field.Judged fields (row x)) :
    (entriesOf x).toValue.EveryEntry Judged := by
  apply Entries.everyEntry_toValue
  rw [entriesOf_list]
  exact Fields.judged_entries h

theorem unmistaken (h : Fields.Unmistaken fields (row x)) :
    (Kind.nested : Kind ρ).Unmistaken x := by
  refine Kind.unmistaken_nested (fun some => ?_) (everyEntry h.judged)
  rw [Entries.isEmpty, List.isEmpty_eq_false_iff] at some
  obtain ⟨e, he⟩ := List.exists_mem_of_ne_nil _ some
  refine ⟨e, he, ?_⟩
  rw [entriesOf_list] at he
  exact h.nonzero e he

end Record

end LedgerCodec
