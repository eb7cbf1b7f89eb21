import LedgerCodec.Proofs.Record.Zeros
/-!
# Faults of fields

A field is refused for a fault of the value it holds: the value is of another sort
than the field's, has another length or is out of range, or it is a map with a
repeated key, a key that is no field, or a field with a fault. `Content.Fault` lists
them apart from the readers, each with the error that names it. Whatever error a
record is refused with, the fault it names is there: `Record.fault_of_decodeValue`.
-/

namespace LedgerCodec

open Wire

namespace Content

/-- What messages call the values that a key is there to hold. -/
def sort : Content → String
  | number => "unsigned integer"
  | flag => "bool"
  | text => "string"
  | blob => "binary"
  | fixed _ => "binary"
  | list => "array"
  | record _ => "map"

/-- Whether a value is of that sort. -/
def admits : Content → Value → Bool
  | number, .uint _ => true
  | flag, .bool _ => true
  | text, .str _ => true
  | blob, .bin _ => true
  | blob, .str _ => true
  | fixed _, .bin _ => true
  | fixed _, .str _ => true
  | list, .array _ => true
  | record _, .map _ => true
  | _, _ => false

/-- The faults of the value that a key holds, if numbers have certain bounds. -/
inductive Fault (bounds : List (String × Nat)) : Content → String → Value → Error → Prop
  | sort {c : Content} {key : String} {v : Value} (something : v ≠ .nil)
      (other : c.admits v = false) : Fault bounds c key v (.unexpectedType key c.sort)
  | length {n : Nat} {key : String} {v : Value} {bs : Bytes}
      (holds : v = .bin bs ∨ ∃ s, v = .str s ∧ utf8 s = bs) (some : bs.length ≠ 0)
      (other : bs.length ≠ n) : Fault bounds (.fixed n) key v (.wrongLength key n bs.length)
  | range {key : String} {n : UInt64} {bound : Nat} (bounded : (key, bound) ∈ bounds)
      (large : bound ≤ n.toNat) : Fault bounds .number key (.uint n) (.outOfRange key n)
  | repeated {table : TagTable} {key k : String} {es : List (String × Value)}
      (twice : 2 ≤ (es.map Prod.fst).count k) :
      Fault bounds (.record table) key (.map es) (.duplicateField k)
  | unknown {table : TagTable} {key k : String} {es : List (String × Value)}
      (here : k ∈ es.map Prod.fst) (other : k ∉ table.map Prod.fst) :
      Fault bounds (.record table) key (.map es) (.unknownField k)
  | inside {table : TagTable} {key k : String} {es : List (String × Value)} {c : Content}
      {v : Value} {e : Error} (here : (k, v) ∈ es) (stands : table.lookup k = some c)
      (fault : Fault bounds c k v e) : Fault bounds (.record table) key (.map es) e

end Content

/-- Entries hold a value with a fault under a key of a table. -/
def TagTable.Fault (bounds : List (String × Nat)) (table : TagTable) (es : List (String × Value))
    (e : Error) : Prop :=
  ∃ key c v, (key, v) ∈ es ∧ table.lookup key = some c ∧ c.Fault bounds key v e

variable {bounds : List (String × Nat)} {table : TagTable} {es : List (String × Value)}
  {key : String} {v : Value} {e : Error}

/-! ## Readers -/

/-- A reader refuses only faults, and never an absent field. -/
structure Reader.Tells {τ : Type} (r : Reader τ) (bounds : List (String × Nat)) (c : Content)
    (key : String) : Prop where
  absent_ok : ∃ x, r.absent key = .ok x
  fault {v : Value} {e : Error} : v ≠ .nil → r.read key v = .error e → c.Fault bounds key v e

namespace Reader

theorem Tells.fault_of_ofHeld {τ : Type} {r : Reader τ} {c : Content} (tells : r.Tells bounds c key)
    (h : r.ofHeld key ((⟨es⟩ : Pending).find? key) = .error e) :
    ∃ v, (key, v) ∈ es ∧ c.Fault bounds key v e := by
  cases held : (⟨es⟩ : Pending).find? key with
  | none =>
    obtain ⟨x, hx⟩ := tells.absent_ok
    rw [held] at h
    cases hx.symm.trans h
  | some v =>
    rw [held] at h
    obtain ⟨found, something⟩ := Pending.find?_eq_some.mp held
    exact ⟨v, mem_of_lookup found, tells.fault something h⟩

theorem uint_read_error (h : uint.read key v = .error e) :
    e = .unexpectedType key "unsigned integer" ∧ Content.number.admits v = false := by
  cases v with
  | uint n => cases h
  | _ => cases h; exact ⟨rfl, rfl⟩

theorem tells_uint : uint.Tells bounds .number key where
  absent_ok := ⟨0, rfl⟩
  fault something h := by
    obtain ⟨rfl, other⟩ := uint_read_error h
    exact .sort something other

theorem tells_narrow {τ : Type} {bound : Nat} {ofNat : Nat → τ} (bounded : (key, bound) ∈ bounds) :
    (narrow bound ofNat).Tells bounds .number key where
  absent_ok := ⟨ofNat 0, rfl⟩
  fault {v e} something h := by
    rcases bind_eq_error.mp h with h | ⟨n, hn, h⟩
    · obtain ⟨rfl, other⟩ := uint_read_error h
      exact .sort something other
    · rw [Field.uint_read_ok hn]
      split at h
      · cases h
      · rename_i large
        cases h
        exact .range bounded (Nat.not_lt.mp large)

theorem tells_bool : bool.Tells bounds .flag key where
  absent_ok := ⟨false, rfl⟩
  fault {v e} something h := by
    cases v with
    | bool b => cases h
    | _ => cases h; exact .sort something rfl

theorem tells_text : text.Tells bounds .text key where
  absent_ok := ⟨"", rfl⟩
  fault {v e} something h := by
    cases v with
    | str s => cases h
    | _ => cases h; exact .sort something rfl

theorem blob_read_error (something : v ≠ .nil) (h : blob.read key v = .error e) :
    e = .unexpectedType key "binary" ∧ Content.blob.admits v = false := by
  cases v with
  | nil => exact absurd rfl something
  | bin bs => cases h
  | str s => cases h
  | _ => cases h; exact ⟨rfl, rfl⟩

theorem tells_blob : blob.Tells bounds .blob key where
  absent_ok := ⟨[], rfl⟩
  fault something h := by
    obtain ⟨rfl, other⟩ := blob_read_error something h
    exact .sort something other

theorem admits_fixed (n : Nat) (v : Value) : (Content.fixed n).admits v = Content.blob.admits v := by
  cases v <;> rfl

theorem tells_sized {n : Nat} : (sized n).Tells bounds (.fixed n) key where
  absent_ok := ⟨.zero n, rfl⟩
  fault {v e} something h := by
    rcases bind_eq_error.mp h with h | ⟨bs, read, h⟩
    · obtain ⟨rfl, other⟩ := blob_read_error something h
      exact .sort something ((admits_fixed n v).trans other)
    · have holds : v = .bin bs ∨ ∃ s, v = .str s ∧ utf8 s = bs := by
        rcases Kind.blob_read_ok read with bin | str | ⟨nothing, -⟩
        · exact .inl bin
        · exact .inr str
        · exact absurd nothing something
      split at h
      · cases h
      · rename_i some
        split at h
        · cases h
        · rename_i other
          cases h
          refine .length holds (fun none => some ?_) fun full => ?_
          · rw [List.length_eq_zero_iff.mp none]
            rfl
          · cases other.symm.trans (dif_pos full)

theorem tells_fixed {role : Role} : (fixed role).Tells bounds (.fixed role.size) key where
  absent_ok := ⟨.zero role, rfl⟩
  fault something h := tells_sized.fault something (map_eq_error.mp h)

end Reader

/-! ## Rows -/

/-- A field stands in a table with a content whose faults it refuses. -/
def Field.Tells {τ : Type} (bounds : List (String × Nat)) (table : TagTable) (f : Field τ) : Prop :=
  ∃ c, table.lookup f.key = some c ∧ f.kind.reader.Tells bounds c f.key

theorem Fields.fault_of_readBy {σ : Type} {l : Fields σ} (tells : l.All (Field.Tells bounds table))
    (h : (l.readBy fun k => (⟨es⟩ : Pending).find? k) = .error e) : table.Fault bounds es e := by
  induction l with
  | field f =>
    obtain ⟨c, stands, tells⟩ := tells
    obtain ⟨v, here, fault⟩ := tells.fault_of_ofHeld h
    exact ⟨f.key, c, v, here, stands, fault⟩
  | both first second ih₁ ih₂ =>
    rcases bind_eq_error.mp h with h | ⟨x, -, h⟩
    · exact ih₁ tells.1 h
    · rcases bind_eq_error.mp h with h | ⟨y, -, h⟩
      · exact ih₂ tells.2 h
      · cases h

/-! ## Maps -/

theorem firstRepeated_eq_some {keys : List String} : ∀ {seen : List String},
    firstRepeated seen keys = some key → key ∈ keys ∧ key ∈ seen ∨ 2 ≤ keys.count key := by
  induction keys with
  | nil => exact nofun
  | cons k keys ih =>
    intro seen h
    rw [firstRepeated] at h
    split at h
    · rename_i old
      cases h
      exact .inl ⟨List.mem_cons_self, List.contains_iff_mem.mp old⟩
    · rcases ih h with ⟨here, old⟩ | twice
      · rcases List.mem_cons.mp old with rfl | old
        · -- The key is new at its first place, and it comes again.
          rw [List.count_cons_self]
          exact .inr (Nat.succ_le_succ (List.count_pos_iff.mpr here))
        · exact .inl ⟨List.mem_cons_of_mem _ here, old⟩
      · exact .inr (Nat.le_trans twice List.count_le_count_cons)

/-- Entries are pending once no key repeats. -/
theorem nodup_or_repeated (es : List (String × Value)) :
    (es.map Prod.fst).Nodup ∨ ∃ k, 2 ≤ (es.map Prod.fst).count k ∧
      ∀ root, Pending.ofValue root (.map es) = .error (.duplicateField k) := by
  cases found : firstRepeated [] (es.map Prod.fst) with
  | none => exact .inl (firstRepeated_eq_none.mp found).1
  | some k =>
    refine .inr ⟨k, (firstRepeated_eq_some found).resolve_left fun old => ?_, fun root => ?_⟩
    · exact List.not_mem_nil old.2
    · simp only [Pending.ofValue, found]

theorem Pending.finish_without_error {p : Pending} {keys : List String}
    (h : (p.without keys).finish = .error e) :
    ∃ e' ∈ p.entries, e'.1 ∉ keys ∧ e = .unknownField e'.1 := by
  obtain ⟨first, rest, left, rfl⟩ := finish_eq_error.mp h
  have here : first ∈ (p.without keys).entries := left ▸ List.mem_cons_self
  obtain ⟨here, other⟩ := mem_without.mp here
  exact ⟨first, here, other, rfl⟩

namespace Record

variable {ρ : Type} [Record ρ]

/-- A record is refused for a fault. -/
theorem fault_of_decodeValue (tabled : Tabled ρ table)
    (tells : (fields (ρ := ρ)).All (Field.Tells bounds table)) (something : v ≠ .nil)
    (h : (decodeValue key v : Except Error ρ) = .error e) :
    (Content.record table).Fault bounds key v e := by
  cases v with
  | nil => exact absurd rfl something
  | map es =>
    rcases nodup_or_repeated es with distinct | ⟨k, twice, repeated⟩
    · rw [decodeValue_map tabled.distinct key distinct] at h
      rcases bind_eq_error.mp h with h | ⟨r, -, h⟩
      · obtain ⟨k, c, w, here, stands, fault⟩ := Fields.fault_of_readBy tells h
        exact .inside here stands fault
      · rcases bind_eq_error.mp h with h | ⟨_, -, h⟩
        · obtain ⟨e', here, other, rfl⟩ := Pending.finish_without_error h
          rw [← tabled.keys] at other
          exact .unknown (List.mem_map_of_mem ((sortByKey_perm es).mem_iff.mp here)) other
        · cases h
    · rw [decodeValue, repeated] at h
      cases h
      exact .repeated twice
  | _ => cases h; exact .sort something rfl

theorem tells_nested (tabled : Tabled ρ table)
    (tells : (fields (ρ := ρ)).All (Field.Tells bounds table)) :
    (Reader.nested : Reader ρ).Tells bounds (.record table) key where
  absent_ok := by
    cases h : (decodeValue key (.map []) : Except Error ρ) with
    | ok x => exact ⟨x, h⟩
    | error e =>
      -- The map without entries has no fault.
      have fault : (Content.record table).Fault bounds key (.map []) e :=
        fault_of_decodeValue tabled tells nofun h
      cases fault with
      | sort _ other => cases other
      | repeated twice => cases twice
      | unknown here => cases here
      | inside here => cases here
  fault := fault_of_decodeValue tabled tells

end Record

end LedgerCodec
