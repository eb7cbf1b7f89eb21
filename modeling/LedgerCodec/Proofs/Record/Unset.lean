import LedgerCodec.Proofs.Record.Laws
/-!
# Records in which nothing is set

A record leaves out what an absent field reads as. So one value has no entries,
the one in which nothing is set, and it alone is written as the empty map:
`Record.encode_eq_empty_iff`. And a key is on the wire exactly if its field is
set: `Fields.mem_keys_both`, down to `Fields.mem_keys_field`.
-/

namespace LedgerCodec

open Wire

/-! ## The empty map -/

theorem Wire.Value.write_map_eq_empty {es : List (String × Value)} :
    (Value.map es).write = [0x80] ↔ es = [] := by
  constructor
  · intro written
    -- The header takes a byte and each entry two, so one byte leaves room for none.
    have header := length_mapHeader_pos es.length
    have entries := length_flatMap_ge Value.writeEntry 2 es fun e _ => length_writeEntry_ge e
    have total : (Value.map es).write.length = 1 := by
      rw [written]
      rfl
    rw [Value.write_map, List.length_append] at total
    exact List.eq_nil_of_length_eq_zero (by omega)
  · rintro rfl
    rfl

theorem Entries.toBytes_eq_empty {es : Entries} : es.toBytes = [0x80] ↔ es.isEmpty = true := by
  rw [toBytes, toValue, Value.write_map_eq_empty, ← List.length_eq_zero_iff,
    (sortByKey_perm es.list).length_eq, List.length_eq_zero_iff, isEmpty, List.isEmpty_iff]

/-! ## The keys of a row -/

namespace Fields

theorem mem_keys_field {τ : Type} {f : Field τ} {x : τ} {key : String} :
    key ∈ (entries (.field f) x).map Prod.fst ↔ key = f.key ∧ f.kind.writer.isZero x = false := by
  rw [entries]
  split <;> simp_all

theorem mem_keys_both {σ τ : Type} {first : Fields σ} {second : Fields τ} {x : σ} {y : τ}
    {key : String} :
    key ∈ (entries (.both first second) (x, y)).map Prod.fst ↔
      key ∈ (entries first x).map Prod.fst ∨ key ∈ (entries second y).map Prod.fst := by
  rw [entries, List.map_append, List.mem_append]

end Fields

/-! ## Records -/

namespace Record

variable {ρ : Type} [Record ρ] {levels : Nat} {unset : ρ}

/-- There is one value without entries. -/
theorem isEmpty_iff (l : (fields (ρ := ρ)).Lawful levels)
    (none : (entriesOf unset).isEmpty = true) (x : ρ) :
    (entriesOf x).isEmpty = true ↔ x = unset := by
  have reads (y : ρ) : (entriesOf y).isEmpty = true ↔
      Fields.readBy fields (fun _ => .none) = .ok (row y) := by
    rw [Fields.readBy_none_iff l.kinds, ← entriesOf_list, Entries.isEmpty, List.isEmpty_iff]
  constructor
  · intro empty
    have same : row x = row unset :=
      Except.ok.inj (((reads x).mp empty).symm.trans ((reads unset).mp none))
    rw [← ofRow_row x, same, ofRow_row]
  · rintro rfl
    exact none

/-- It alone is written as the empty map. -/
theorem encode_eq_empty_iff (l : (fields (ρ := ρ)).Lawful levels)
    (none : (entriesOf unset).isEmpty = true) (x : ρ) : encode x = [0x80] ↔ x = unset := by
  rw [encode, Entries.toBytes_eq_empty, isEmpty_iff l none]

end Record

end LedgerCodec
