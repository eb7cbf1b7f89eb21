import LedgerCodec.Proofs.Record.Exact
/-!
# Keys that do not repeat

A map may repeat a key on the wire, but a record is read only from a map that
does not: `Record.unrepeated_of_decodeValue`. The values of the record's fields
are then without repeated keys as well, at any depth, because every reader in use
takes no other values.
-/

namespace LedgerCodec

open Wire

/-- No map in the value holds two entries of one key, at any depth. -/
inductive Wire.Value.Unrepeated : Value → Prop
  | nil : Unrepeated .nil
  | bool (b : Bool) : Unrepeated (.bool b)
  | uint (n : UInt64) : Unrepeated (.uint n)
  | int (n : Int64) : Unrepeated (.int n)
  | str (s : String) : Unrepeated (.str s)
  | bin (bs : Bytes) : Unrepeated (.bin bs)
  | array {items : List Value} (inside : ∀ v ∈ items, Unrepeated v) : Unrepeated (.array items)
  | map {entries : List (String × Value)} (distinct : (entries.map Prod.fst).Nodup)
      (inside : ∀ e ∈ entries, Unrepeated e.2) : Unrepeated (.map entries)

/-- A reader takes only values in which no key repeats. -/
def Reader.TakesUnrepeated {τ : Type} (r : Reader τ) : Prop :=
  ∀ {key : String} {v : Value} {x : τ}, r.read key v = .ok x → v.Unrepeated

/-! ## Readers -/

namespace Reader

theorem takesUnrepeated_uint : uint.TakesUnrepeated := by
  intro key v x h
  obtain rfl := Field.uint_read_ok h
  exact .uint x

theorem takesUnrepeated_narrow {τ : Type} {bound : Nat} {ofNat : Nat → τ} :
    (narrow bound ofNat).TakesUnrepeated := by
  intro key v x h
  obtain ⟨n, rfl, -, -⟩ := Field.narrow_read_ok h
  exact .uint n

theorem takesUnrepeated_bool : bool.TakesUnrepeated := by
  intro key v x h
  cases v with
  | bool b => exact .bool b
  | _ => cases h

theorem takesUnrepeated_text : text.TakesUnrepeated := by
  intro key v x h
  obtain rfl := Kind.text_read_ok h
  exact .str x

theorem takesUnrepeated_blob : blob.TakesUnrepeated := by
  intro key v x h
  rcases Kind.blob_read_ok h with rfl | ⟨s, rfl, -⟩ | ⟨rfl, -⟩
  · exact .bin x
  · exact .str s
  · exact .nil

theorem takesUnrepeated_fixed {role : Role} : (fixed role).TakesUnrepeated := by
  intro key v x h
  obtain ⟨s, hs, -⟩ := map_eq_ok.mp h
  obtain ⟨bs, hbs, -⟩ := bind_eq_ok.mp hs
  exact takesUnrepeated_blob hbs

theorem takesUnrepeated_list {τ : Type} {item : Reader τ} (h : item.TakesUnrepeated) :
    (list item).TakesUnrepeated := by
  intro key v xs read
  cases v with
  | array items =>
    refine .array fun v hv => ?_
    obtain ⟨x, hx⟩ := ok_of_mapM_ok read v hv
    exact h hx
  | _ => cases read

end Reader

/-! ## Records -/

namespace Fields

variable {σ : Type} {l : Fields σ} {P : String → Value → Prop}

/-- What a row was read from is what its readers take. -/
theorem held_of_readBy {held : String → Option Value} {x : σ} (h : l.readBy held = .ok x)
    (takes : l.All fun f => ∀ {v y}, f.kind.reader.read f.key v = .ok y → P f.key v) {key : String}
    {v : Value} (hk : key ∈ l.keys) (hv : held key = some v) : P key v := by
  have fields := (takes.allOf x).and (readBy_eq_ok.mp h)
  refine fields.of_mem_collect hk ?_
  rintro τ f y rfl ⟨takes, read⟩
  rw [hv] at read
  exact takes read

/-- Entries that a row was read from are what its readers take, if they may be nothing too. -/
theorem entries_of_readBy {es : List (String × Value)} (distinct : (es.map Prod.fst).Nodup) {x : σ}
    (h : (l.readBy fun k => (⟨es⟩ : Pending).find? k) = .ok x) (nothing : ∀ key, P key .nil)
    (takes : l.All fun f => ∀ {v y}, f.kind.reader.read f.key v = .ok y → P f.key v) :
    ∀ e ∈ es, e.1 ∈ l.keys → P e.1 e.2 := by
  intro e he hk
  by_cases none : e.2 = .nil
  · exact none ▸ nothing e.1
  · have found : (⟨es⟩ : Pending).find? e.1 = some e.2 :=
      Pending.find?_eq_some.mpr ⟨(lookup_eq_some distinct).mpr he, none⟩
    exact held_of_readBy h takes hk found

theorem unrepeated_of_readBy {es : List (String × Value)}
    (distinct : (es.map Prod.fst).Nodup) {x : σ}
    (h : (l.readBy fun k => (⟨es⟩ : Pending).find? k) = .ok x)
    (takes : l.All fun f => f.kind.reader.TakesUnrepeated) :
    ∀ e ∈ es, e.1 ∈ l.keys → e.2.Unrepeated := by
  refine entries_of_readBy (P := fun _ v => v.Unrepeated) distinct h (fun _ => .nil) (takes.imp ?_)
  intro τ f taken v y read
  exact taken read

end Fields

/-- A record of readers that take no repeated keys is read from values without them. -/
theorem Record.unrepeated_of_decodeValue {ρ : Type} [Record ρ] {levels : Nat}
    (l : (fields (ρ := ρ)).Lawful levels)
    (takes : (fields (ρ := ρ)).All fun f => f.kind.reader.TakesUnrepeated) {key : String}
    {v : Value} {x : ρ} (h : decodeValue key v = .ok x) : v.Unrepeated := by
  obtain ⟨es, hv, distinct, keys, read⟩ := of_decodeValue l.distinct h
  rcases hv with rfl | ⟨rfl, -⟩
  · exact .map distinct fun e he =>
      Fields.unrepeated_of_readBy distinct read takes e he (keys e he)
  · exact .nil

end LedgerCodec
