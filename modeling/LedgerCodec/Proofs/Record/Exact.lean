import LedgerCodec.Proofs.Record.Laws
/-!
# Fields with one value on the wire

Readers take more than writers write: a text for a blob, an entry that is zero.
A predicate on keys and values singles out what the writer of a field writes, and
a field is exact if nothing else is good. The entries of a row that was read from
good entries are then those very entries: `Fields.mem_entries_iff`.
-/

namespace LedgerCodec

open Wire

variable {good : String → Value → Prop} {levels : Nat}

/-- The good values of a field are those that it writes. -/
structure Field.Exact {τ : Type} (good : String → Value → Prop) (f : Field τ) : Prop where
  good_write {x : τ} : f.kind.writer.isZero x = false → good f.key (f.kind.writer.write x)
  /-- What is good and can be read is written again. -/
  write_read {v : Value} {x : τ} : good f.key v → f.kind.reader.read f.key v = .ok x →
    f.kind.writer.isZero x = false ∧ f.kind.writer.write x = v

/-! ## Kinds -/

namespace Field

/-- A field is exact if it writes what it reads and every value that is not zero is good. -/
theorem exact_of_nonzero {τ : Type} {f : Field τ} (lawful : f.kind.Lawful levels)
    (nonzero : ∀ v, good f.key v ↔ v.isZero = false)
    (write_read : ∀ {v x}, f.kind.reader.read f.key v = .ok x → f.kind.writer.write x = v)
    (isZero_of_write : ∀ {x}, (f.kind.writer.write x).isZero = true → f.kind.writer.isZero x = true) :
    f.Exact good where
  good_write {x} some := by
    refine (nonzero _).mpr (Bool.eq_false_iff.mpr fun zero => ?_)
    rw [isZero_of_write zero] at some
    cases some
  write_read {v x} hv read := by
    refine ⟨Bool.eq_false_iff.mpr fun zero => ?_, write_read read⟩
    have := lawful.isZero_write zero
    rw [write_read read, (nonzero v).mp hv] at this
    cases this

variable {name key : String}

theorem uint_read_ok {v : Value} {n : UInt64} (h : Reader.uint.read key v = .ok n) : v = .uint n := by
  cases v <;> simp_all [Reader.uint]

theorem narrow_read_ok {τ : Type} {bound : Nat} {ofNat : Nat → τ} {v : Value} {x : τ}
    (h : (Reader.narrow bound ofNat).read key v = .ok x) :
    ∃ n : UInt64, v = .uint n ∧ n.toNat < bound ∧ ofNat n.toNat = x := by
  obtain ⟨n, hn, h⟩ := bind_eq_ok.mp h
  refine ⟨n, uint_read_ok hn, ?_⟩
  split at h
  · cases h
    exact ⟨by assumption, rfl⟩
  · cases h

theorem exact_uint64 {absent : Option UInt64} (nonzero : ∀ v, good key v ↔ v.isZero = false) :
    (⟨name, key, .uint64, absent⟩ : Field UInt64).Exact good :=
  exact_of_nonzero (Kind.lawful_uint64 0) nonzero (fun h => (uint_read_ok h).symm) id

theorem exact_narrow {τ : Type} {w : Width τ} {absent : Option τ}
    (nonzero : ∀ v, good key v ↔ v.isZero = false) :
    (⟨name, key, .narrow w, absent⟩ : Field τ).Exact good := by
  refine exact_of_nonzero (Kind.lawful_narrow 0 w) nonzero (fun h => ?_) id
  obtain ⟨n, rfl, small, rfl⟩ := narrow_read_ok h
  exact congrArg Value.uint (w.toUInt64_ofNat small)

theorem exact_bool {absent : Option Bool} (nonzero : ∀ v, good key v ↔ v.isZero = false) :
    (⟨name, key, .bool, absent⟩ : Field Bool).Exact good := by
  refine exact_of_nonzero (Kind.lawful_bool 0) nonzero (fun {v x} h => ?_) id
  cases v <;> simp_all [Kind.bool, Reader.bool, Writer.bool]

theorem exact_text {absent : Option String} (nonzero : ∀ v, good key v ↔ v.isZero = false) :
    (⟨name, key, .text, absent⟩ : Field String).Exact good :=
  exact_of_nonzero (Kind.lawful_text 0) nonzero (fun h => (Kind.text_read_ok h).symm) id

/-- A value of fixed size is read from a blob of its bytes, unless they are zero. -/
theorem exact_fixed {role : Role} {absent : Option (Fixed role)}
    (blob : ∀ v, good key v ↔ (∃ bs, v = .bin bs) ∧ v.isZero = false) :
    (⟨name, key, .fixed role, absent⟩ : Field (Fixed role)).Exact good where
  good_write some := (blob _).mpr ⟨⟨_, rfl⟩, some⟩
  write_read {v x} hv read := by
    obtain ⟨⟨bs, rfl⟩, some⟩ := (blob v).mp hv
    have nonempty : bs.isEmpty = false := by
      refine Bool.eq_false_iff.mpr fun empty => ?_
      rw [List.isEmpty_iff.mp empty] at some
      cases some
    obtain ⟨s, hs, rfl⟩ := map_eq_ok.mp read
    obtain ⟨_, hbs, hs⟩ := bind_eq_ok.mp hs
    cases hbs
    rw [if_neg (by simp [nonempty])] at hs
    split at hs
    · rename_i found
      cases hs
      have wrote : s.bytes = bs := Sized.bytes_of_ofBytes? found
      exact ⟨by rw [← some, ← wrote]; rfl, congrArg Value.bin wrote⟩
    · cases hs

/-- A blob is read from a blob of its bytes, unless there are none. -/
theorem exact_blob {absent : Option Bytes}
    (blob : ∀ v, good key v ↔ ∃ bs, v = .bin bs ∧ bs ≠ []) :
    (⟨name, key, .blob, absent⟩ : Field Bytes).Exact good where
  good_write {x} some := (blob _).mpr ⟨x, rfl, fun none => by rw [none] at some; cases some⟩
  write_read {v x} hv read := by
    obtain ⟨bs, rfl, some⟩ := (blob v).mp hv
    cases read
    exact ⟨Bool.eq_false_iff.mpr fun none => some (List.isEmpty_iff.mp none), rfl⟩

end Field

/-! ## Rows -/

namespace Fields

variable {σ : Type} {l : Fields σ}

theorem good_entries (exact : l.All (Field.Exact good)) (x : σ) : ∀ e ∈ l.entries x, good e.1 e.2 := by
  refine forall_mem_entries ((exact.allOf x).imp fun f y exact nonzero => ?_)
  exact exact.good_write nonzero

/-- A row that was read from good values has exactly these as its entries. -/
theorem mem_entries_iff (kinds : l.All fun f => f.kind.Lawful levels)
    (exact : l.All (Field.Exact good)) {held : String → Option Value}
    (hgood : ∀ {key v}, held key = some v → good key v) {x : σ} (h : l.readBy held = .ok x)
    {e : String × Value} : e ∈ l.entries x ↔ e.1 ∈ l.keys ∧ held e.1 = some e.2 := by
  apply mem_entries_iff_written
  refine (((kinds.allOf x).and (exact.allOf x)).and (readBy_eq_ok.mp h)).imp ?_
  rintro τ f y ⟨⟨lawful, exact⟩, read⟩
  unfold Writer.written
  cases hv : held f.key with
  | none =>
    rw [hv] at read
    rw [if_pos ((lawful.absent_iff f.key y).mp read)]
  | some v =>
    rw [hv] at read
    obtain ⟨some, wrote⟩ := exact.write_read (hgood hv) read
    rw [if_neg (by simp [some]), wrote]

end Fields

/-! ## Maps -/

theorem Wire.Value.entriesZero_iff {es : List (String × Value)} :
    Value.entriesZero es = true ↔ ∀ e ∈ es, e.2.isZero = true := by
  induction es with
  | nil => simp [Value.entriesZero]
  | cons e es ih =>
    obtain ⟨key, v⟩ := e
    rw [Value.entriesZero, Value.entryZero, Bool.and_eq_true, ih, List.forall_mem_cons]

/-- Keys hold the entries of a map none of which is nothing. -/
theorem Pending.find?_eq_some_iff_mem {es : List (String × Value)}
    (distinct : (es.map Prod.fst).Nodup) (some : ∀ e ∈ es, e.2 ≠ .nil) {e : String × Value} :
    (⟨es⟩ : Pending).find? e.1 = .some e.2 ↔ e ∈ es := by
  rw [Pending.find?_of_ne_nil some, lookup_eq_some distinct]

/-- A record that was read from ascending good entries is written as these. -/
theorem Record.toValue_of_good {ρ : Type} [Record ρ] (l : (fields (ρ := ρ)).Lawful levels)
    (exact : (fields (ρ := ρ)).All (Field.Exact good)) (some : ∀ {key v}, good key v → v ≠ .nil)
    {es : List (String × Value)} (ascending : Ascending es) (hgood : ∀ e ∈ es, good e.1 e.2)
    {key : String} {x : ρ} (h : decodeValue key (.map es) = .ok x) :
    (entriesOf x).toValue = .map es := by
  obtain ⟨es', hes, distinct, keys, read⟩ := of_decodeValue l.distinct h
  obtain rfl : es = es' := by
    rcases hes with same | ⟨none, -⟩
    · exact Value.map.inj same
    · cases none
  have present : ∀ e ∈ es, e.2 ≠ .nil := fun e he => some (hgood e he)
  have held {key : String} {v : Value} (h : (⟨es⟩ : Pending).find? key = .some v) : good key v :=
    hgood (key, v) ((Pending.find?_eq_some_iff_mem distinct present).mp h)
  show Value.map (sortByKey (entriesOf x).list) = _
  rw [entriesOf_list, sortByKey_eq_of_mem_iff (Fields.nodup_keys_entries l.distinct _) ascending]
  intro e
  rw [Fields.mem_entries_iff l.kinds exact held read,
    Pending.find?_eq_some_iff_mem distinct present]
  exact ⟨And.right, fun he => ⟨keys e he, he⟩⟩

end LedgerCodec
