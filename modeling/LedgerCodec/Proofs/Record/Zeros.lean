import LedgerCodec.Proofs.Record.Exact
/-!
# Zeros that are spelled out

A field may be left out if it is zero, and it may as well be spelled out, in one of
several ways that depend on what it holds. Readers make the same of both, and maps
that differ only in such entries are read as the same record:
`Record.decodeValue_of_adds`.
-/

namespace LedgerCodec

open Wire

/-- What a key is there to hold. -/
inductive Content
  | number
  | flag
  | text
  | blob
  | fixed (size : Nat)
  | list
  | record (table : List (String × Content))

/-- The keys of a record, and what each is there to hold. -/
abbrev TagTable := List (String × Content)

namespace Content

/-- The spellings of zero. -/
inductive Zero : Content → Value → Prop
  | nil (c : Content) : Zero c .nil
  | number : Zero .number (.uint 0)
  | flag : Zero .flag (.bool false)
  | text : Zero .text (.str "")
  | blob : Zero .blob (.bin [])
  | blobText : Zero .blob (.str "")
  | fixed (n : Nat) : Zero (.fixed n) (.bin (List.replicate n 0))
  | fixedEmpty (n : Nat) : Zero (.fixed n) (.bin [])
  | fixedText (n : Nat) : Zero (.fixed n) (.str "")
  | list : Zero .list (.array [])
  | record {table : TagTable} {es : List (String × Value)} (distinct : (es.map Prod.fst).Nodup)
      (known : ∀ e ∈ es, e.1 ∈ table.map Prod.fst)
      (zeros : ∀ e ∈ es, ∀ c, table.lookup e.1 = some c → Zero c e.2) :
      Zero (.record table) (.map es)

theorem exists_of_mem_keys {table : TagTable} {key : String} (h : key ∈ table.map Prod.fst) :
    ∃ c, table.lookup key = some c := by
  cases here : table.lookup key with
  | none => exact absurd h (lookup_eq_none.mp here)
  | some c => exact ⟨c, rfl⟩

/-- What spells zero is zero on the wire, whatever it is there for. -/
theorem Zero.isZero {c : Content} {v : Value} (h : c.Zero v) : v.isZero = true := by
  induction h with
  | fixed n => simp [Value.isZero, Bytes.allZero]
  | record distinct known zeros ih =>
    refine Value.entriesZero_iff.mpr fun e he => ?_
    obtain ⟨c, here⟩ := exists_of_mem_keys (known e he)
    exact ih e he c here
  | _ => rfl

/-- A key that held nothing holds a zero now, or it holds what it held. -/
inductive Adds (c : Content) : Option Value → Option Value → Prop
  | same (held : Option Value) : Adds c held held
  | zero {v : Value} (something : v ≠ .nil) (zero : c.Zero v) : Adds c none (some v)

theorem adds_find? {c : Content} {es : List (String × Value)} {key : String}
    (zeros : ∀ v, es.lookup key = some v → c.Zero v) :
    c.Adds none ((⟨es⟩ : Pending).find? key) := by
  cases held : (⟨es⟩ : Pending).find? key with
  | none => exact .same none
  | some v =>
    obtain ⟨found, something⟩ := Pending.find?_eq_some.mp held
    exact .zero something (zeros v found)

end Content

/-! ## Readers -/

/-- A spelled-out zero is read as what an absent field reads as. -/
def Reader.ReadsZeros {τ : Type} (r : Reader τ) (c : Content) : Prop :=
  ∀ (key : String) (v : Value) (x : τ), c.Zero v → v ≠ .nil → r.absent key = .ok x →
    r.read key v = .ok x

namespace Reader

theorem ReadsZeros.ofHeld {τ : Type} {r : Reader τ} {c : Content} (reads : r.ReadsZeros c)
    {held held' : Option Value} (adds : c.Adds held held') {key : String} {x : τ}
    (h : r.ofHeld key held = .ok x) : r.ofHeld key held' = .ok x := by
  cases adds with
  | same => exact h
  | zero something zero => exact reads key _ x zero something h

theorem readsZeros_uint : uint.ReadsZeros .number := by
  intro key v x zero something absent
  cases zero with
  | nil => exact absurd rfl something
  | number => exact absent

theorem readsZeros_narrow {τ : Type} {bound : Nat} {ofNat : Nat → τ} (pos : 0 < bound) :
    (narrow bound ofNat).ReadsZeros .number := by
  intro key v x zero something absent
  cases zero with
  | nil => exact absurd rfl something
  | number => exact (Kind.narrow_read pos).trans absent

theorem readsZeros_bool : bool.ReadsZeros .flag := by
  intro key v x zero something absent
  cases zero with
  | nil => exact absurd rfl something
  | flag => exact absent

theorem readsZeros_text : text.ReadsZeros .text := by
  intro key v x zero something absent
  cases zero with
  | nil => exact absurd rfl something
  | text => exact absent

theorem readsZeros_blob : blob.ReadsZeros .blob := by
  intro key v x zero something absent
  cases zero with
  | nil => exact absurd rfl something
  | blob => exact absent
  | blobText => exact absent

theorem readsZeros_fixed {role : Role} : (fixed role).ReadsZeros (.fixed role.size) := by
  intro key v x zero something absent
  cases zero with
  | nil => exact absurd rfl something
  | fixed =>
    have full := Kind.sized_read role.size key (.zero role.size)
    exact (congrArg (Except.map Fixed.mk) full).trans absent
  | fixedEmpty => exact absent
  | fixedText => exact absent

theorem readsZeros_list {τ : Type} {item : Reader τ} : (list item).ReadsZeros .list := by
  intro key v x zero something absent
  cases zero with
  | nil => exact absurd rfl something
  | list => exact absent

end Reader

/-! ## Records -/

/-- A field stands in a table with a content whose zeros it reads. -/
def Field.ReadsZeros {τ : Type} (table : TagTable) (f : Field τ) : Prop :=
  ∃ c, table.lookup f.key = some c ∧ f.kind.reader.ReadsZeros c

/-- A field stands in every larger table too. -/
theorem Field.ReadsZeros.mono {τ : Type} {f : Field τ} {part whole : TagTable}
    (h : f.ReadsZeros part) (distinct : (whole.map Prod.fst).Nodup) (sub : part ⊆ whole) :
    f.ReadsZeros whole := by
  obtain ⟨c, here, reads⟩ := h
  exact ⟨c, (lookup_eq_some distinct).mpr (sub (mem_of_lookup here)), reads⟩

/-- Under the keys of a table, entries are others with zeros added. -/
def TagTable.Adds (table : TagTable) (es es' : List (String × Value)) : Prop :=
  ∀ key c, table.lookup key = some c →
    c.Adds ((⟨es⟩ : Pending).find? key) ((⟨es'⟩ : Pending).find? key)

variable {table : TagTable} {es es' : List (String × Value)}

theorem Fields.readBy_of_adds {σ : Type} {l : Fields σ} (reads : l.All (Field.ReadsZeros table))
    (adds : table.Adds es es') {x : σ}
    (h : (l.readBy fun k => (⟨es⟩ : Pending).find? k) = .ok x) :
    (l.readBy fun k => (⟨es'⟩ : Pending).find? k) = .ok x := by
  refine readBy_eq_ok.mpr (((reads.allOf x).and (readBy_eq_ok.mp h)).imp ?_)
  rintro τ f y ⟨⟨c, here, reads⟩, read⟩
  exact reads.ofHeld (adds f.key c here) read

/-- The table has the keys of a record, with contents whose zeros its fields read. -/
structure Record.Tabled (ρ : Type) [Record ρ] (table : TagTable) : Prop where
  distinct : (Record.keys ρ).Nodup
  keys : table.map Prod.fst = Record.keys ρ
  fields : (Record.fields (ρ := ρ)).All (Field.ReadsZeros table)

namespace Record

variable {ρ : Type} [Record ρ]

theorem of_decodeValue_map (distinctKeys : (keys ρ).Nodup) {root : String} {x : ρ}
    (h : decodeValue root (.map es) = .ok x) :
    (es.map Prod.fst).Nodup ∧ (∀ e ∈ es, e.1 ∈ keys ρ) ∧
      (Fields.readBy fields fun k => (⟨es⟩ : Pending).find? k) = .ok (row x) := by
  obtain ⟨_, held, distinct, known, read⟩ := of_decodeValue distinctKeys h
  rcases held with held | ⟨held, -⟩
  · cases held
    exact ⟨distinct, known, read⟩
  · cases held

/-- A record is read from entries as it is from them without some zeros. -/
theorem decodeValue_of_adds (tabled : Tabled ρ table) {root : String} {x : ρ}
    (h : decodeValue root (.map es) = .ok x) (distinct : (es'.map Prod.fst).Nodup)
    (known : ∀ e ∈ es', e.1 ∈ table.map Prod.fst) (adds : table.Adds es es') :
    decodeValue root (.map es') = .ok x := by
  obtain ⟨-, -, read⟩ := of_decodeValue_map tabled.distinct h
  have left : (Pending.without (keys ρ) ⟨sortByKey es'⟩).finish = .ok () := by
    refine Pending.finish_without fun e he => ?_
    rw [← tabled.keys]
    exact known e ((sortByKey_perm es').mem_iff.mp he)
  rw [decodeValue_map tabled.distinct root distinct, Fields.readBy_of_adds tabled.fields adds read,
    bind_ok, left, bind_ok, ofRow_row]

/-- A map of zeros is read as the map without entries. -/
theorem readsZeros_nested (tabled : Tabled ρ table) :
    (Reader.nested : Reader ρ).ReadsZeros (.record table) := by
  intro key v x zero something absent
  cases zero with
  | nil => exact absurd rfl something
  | @record _ es distinct known zeros =>
    refine decodeValue_of_adds tabled absent distinct known fun k c here => ?_
    exact Content.adds_find? fun v found => zeros (k, v) (mem_of_lookup found) c here

end Record

/-! ## One more entry -/

section

variable {before after : List (String × Value)} {key : String} {z : Value}

/-- A spelled-out zero under an absent key is a zero added. -/
theorem TagTable.adds_insert {c : Content} (stands : table.lookup key = some c) (zero : c.Zero z)
    (fresh : key ∉ (before ++ after).map Prod.fst) :
    table.Adds (before ++ after) (before ++ (key, z) :: after) := by
  intro k c' here
  by_cases same : k = key
  · subst same
    obtain rfl : c = c' := Option.some.inj (stands.symm.trans here)
    have none : (⟨before ++ after⟩ : Pending).find? k = none := by
      simp only [Pending.find?, lookup_eq_none.mpr fresh]
    rw [none]
    refine Content.adds_find? fun v found => ?_
    rw [lookup_insert fresh, if_pos rfl] at found
    exact Option.some.inj found ▸ zero
  · simp only [Pending.find?, lookup_insert fresh, if_neg same]
    exact .same _

/-- A zero that is spelled out under a key of its own makes no difference to a record. -/
theorem Record.decodeValue_insert_zero {ρ : Type} [Record ρ] (tabled : Tabled ρ table) {c : Content}
    (stands : table.lookup key = some c) (zero : c.Zero z) {root : String} {x : ρ}
    (h : decodeValue root (.map (before ++ after)) = .ok x)
    (fresh : key ∉ (before ++ after).map Prod.fst) :
    decodeValue root (.map (before ++ (key, z) :: after)) = .ok x := by
  obtain ⟨distinct, known, -⟩ := of_decodeValue_map tabled.distinct h
  refine decodeValue_of_adds tabled h (nodup_keys_insert distinct fresh) ?_
    (TagTable.adds_insert stands zero fresh)
  intro e he
  rcases List.mem_cons.mp (List.perm_middle.mem_iff.mp he) with rfl | he
  · exact List.mem_map.mpr ⟨_, mem_of_lookup stands, rfl⟩
  · rw [tabled.keys]
    exact known e he

end

end LedgerCodec
