import LedgerCodec.Proofs.Record.Rows
import LedgerCodec.Proofs.Wire.RoundTrip
/-!
# Laws of fields and records

A kind of field is lawful if it reads back what it writes, leaves out exactly
what an absent field reads as, and, from values that fit, reads only what fits
again. The laws of all kinds in use are proved here, and so is what follows for a
type that is described by lawful fields: its values come back from their maps.
-/

namespace LedgerCodec

open Wire

/-! ## The laws -/

/-- The laws of a kind of field whose values nest `levels` containers at most. -/
structure Kind.Lawful {τ : Type} (k : Kind τ) (levels : Nat) : Prop where
  read_write (key : String) (x : τ) : k.reader.read key (k.writer.write x) = .ok x
  /-- Exactly what an absent field reads as is left out. -/
  absent_iff (key : String) (x : τ) : k.reader.absent key = .ok x ↔ k.writer.isZero x = true
  write_ne_nil (x : τ) : k.writer.write x ≠ .nil
  /-- What is left out is zero on the wire too. -/
  isZero_write {x : τ} : k.writer.isZero x = true → (k.writer.write x).isZero = true
  fits_of_read {n : Nat} {key : String} {v : Value} {x : τ} :
    Fits n v → k.reader.read key v = .ok x → Fits levels (k.writer.write x)

/-- The laws of a type whose values are maps that nest `levels` containers at most. -/
structure Canonical.Lawful (α : Type) [Canonical α] (levels : Nat) : Prop where
  decodeValue_toValue (key : String) (x : α) : decodeValue key (entriesOf x).toValue = .ok x
  decodeValue_empty (key : String) (x : α) :
    decodeValue key (.map []) = .ok x ↔ (entriesOf x).isEmpty = true
  fits_of_decodeValue {n : Nat} {key : String} {v : Value} {x : α} :
    Fits n v → decodeValue key v = .ok x → Fits levels (entriesOf x).toValue

/-- The laws of the fields of a record. -/
structure Fields.Lawful {σ : Type} (l : Fields σ) (levels : Nat) : Prop where
  distinct : l.keys.Nodup
  short : ∀ key ∈ l.keys, (utf8 key).length < lengthBound
  size : l.size < lengthBound
  kinds : l.All fun f => f.kind.Lawful levels

/-! ## Kinds -/

namespace Kind

variable (levels : Nat)

theorem ok_iff_beq {τ : Type} [BEq τ] [LawfulBEq τ] (zero x : τ) :
    (.ok zero : Except Error τ) = .ok x ↔ (x == zero) = true := by
  rw [Except.ok.injEq, beq_iff_eq, eq_comm]

theorem lawful_uint64 : uint64.Lawful levels where
  read_write _ _ := rfl
  absent_iff _ x := ok_iff_beq 0 x
  write_ne_nil _ := nofun
  isZero_write h := h
  fits_of_read _ _ := .uint _

theorem narrow_read {τ : Type} {bound : Nat} {ofNat : Nat → τ} {key : String} {n : UInt64}
    (h : n.toNat < bound) : (Reader.narrow bound ofNat).read key (.uint n) = .ok (ofNat n.toNat) := by
  simp [Reader.narrow, Reader.uint, h]

theorem lawful_narrow {τ : Type} (w : Width τ) : (narrow w).Lawful levels where
  read_write key x := by
    have read : (Reader.narrow w.bound w.ofNat).read key (.uint (w.toUInt64 x)) =
        .ok (w.ofNat (w.toUInt64 x).toNat) := narrow_read (w.toNat_lt x)
    rwa [w.ofNat_toNat] at read
  absent_iff _ x := by
    show Except.ok (w.ofNat 0) = Except.ok x ↔ (w.toUInt64 x == 0) = true
    rw [Except.ok.injEq, beq_iff_eq, w.toUInt64_eq_zero, eq_comm]
  write_ne_nil _ := nofun
  isZero_write h := h
  fits_of_read _ _ := .uint _

theorem lawful_bool : bool.Lawful levels where
  read_write _ _ := rfl
  absent_iff _ x := by cases x <;> simp [bool, Reader.bool, Writer.bool]
  write_ne_nil _ := nofun
  isZero_write h := h
  fits_of_read _ _ := .bool _

theorem text_read_ok {key : String} {v : Value} {s : String} (h : Reader.text.read key v = .ok s) :
    v = .str s := by
  cases v <;> simp_all [Reader.text]

theorem lawful_text : text.Lawful levels where
  read_write _ _ := rfl
  absent_iff _ x := by
    show Except.ok "" = Except.ok x ↔ x.isEmpty = true
    rw [Except.ok.injEq, String.isEmpty_iff, eq_comm]
  write_ne_nil _ := nofun
  isZero_write h := h
  fits_of_read fits h := by
    cases text_read_ok h
    cases fits with
    | str short => exact .str short

/-- A blob is read from a blob, from a text that stands for its bytes, or from nothing. -/
theorem blob_read_ok {key : String} {v : Value} {bs : Bytes} (h : Reader.blob.read key v = .ok bs) :
    v = .bin bs ∨ (∃ s, v = .str s ∧ utf8 s = bs) ∨ v = .nil ∧ bs = [] := by
  cases v <;> simp_all [Reader.blob]

theorem short_of_blob_read {n : Nat} {key : String} {v : Value} {bs : Bytes} (fits : Fits n v)
    (h : Reader.blob.read key v = .ok bs) : bs.length < lengthBound := by
  rcases blob_read_ok h with rfl | ⟨s, rfl, rfl⟩ | ⟨rfl, rfl⟩
  · cases fits with
    | bin short => exact short
  · cases fits with
    | str short => exact short
  · decide

theorem lawful_blob : blob.Lawful levels where
  read_write _ _ := rfl
  absent_iff _ x := by cases x <;> simp [blob, Reader.blob, Writer.blob]
  write_ne_nil _ := nofun
  isZero_write {x} h := by
    have : x = [] := by simpa [blob, Writer.blob] using h
    subst this
    rfl
  fits_of_read fits h := .bin (short_of_blob_read fits h)

theorem sized_read (n : Nat) (key : String) (x : Sized n) :
    (Reader.sized n).read key (.bin x.bytes) = .ok x := by
  show (if x.bytes.isEmpty then Except.ok (Sized.zero n) else _) = _
  split
  · rename_i empty
    have none : x.bytes = [] := by simpa using empty
    have len := x.length_bytes
    rw [none] at len
    subst len
    exact congrArg _ (Sized.ext_bytes none.symm)
  · rw [Sized.ofBytes?_bytes]

theorem length_role (role : Role) : role.size < lengthBound := by
  cases role <;> decide

theorem lawful_fixed (role : Role) : (fixed role).Lawful levels where
  read_write key x := by
    show ((Reader.sized role.size).read key (.bin x.raw.bytes)).map Fixed.mk = _
    rw [sized_read]
    rfl
  absent_iff _ x := by
    show Except.ok _ = Except.ok _ ↔ Sized.isZero x.raw = true
    rw [Sized.isZero_iff, Except.ok.injEq]
    exact ⟨fun h => h ▸ rfl, fun h => by cases x; exact congrArg _ h.symm⟩
  write_ne_nil _ := nofun
  isZero_write h := h
  fits_of_read _ _ := by
    refine .bin ?_
    rw [Sized.length_bytes]
    exact length_role role

variable {levels}

theorem lawful_nested {α : Type} [Canonical α] [JsonForm α] (h : Canonical.Lawful α levels) :
    (nested : Kind α).Lawful levels where
  read_write := h.decodeValue_toValue
  absent_iff := h.decodeValue_empty
  write_ne_nil _ := nofun
  isZero_write {x} empty := by
    have none : (entriesOf x).list = [] := by simpa [nested, Writer.nested, Writer.record,
      Entries.isEmpty] using empty
    show Value.isZero (.map (sortByKey (entriesOf x).list)) = true
    rw [none]
    rfl
  fits_of_read := h.fits_of_decodeValue

/-- A list of what a writer and a reader agree on. -/
theorem lawful_list {τ : Type} {w : Writer τ} {r : Reader τ} {form : Json.Form (List τ)}
    (read_write : ∀ key x, r.read key (w.write x) = .ok x)
    (fits_of_read : ∀ {n key v x}, Fits n v → r.read key v = .ok x → Fits levels (w.write x)) :
    (⟨.list w, .list r, form⟩ : Kind (List τ)).Lawful (levels + 1) where
  read_write key xs := mapM_map_ok _ _ xs fun x _ => read_write key x
  absent_iff _ xs := by cases xs <;> simp [Reader.list, Writer.list]
  write_ne_nil _ := nofun
  isZero_write {xs} h := by
    have : xs = [] := by simpa [Writer.list] using h
    subst this
    rfl
  fits_of_read {n key v xs} fits h := by
    cases fits with
    | @array n items short inside =>
      obtain ⟨len, all⟩ := mapM_ok_mem h
      refine .array (by rwa [List.length_map, len]) fun v hv => ?_
      obtain ⟨x, hx, rfl⟩ := List.mem_map.mp hv
      obtain ⟨item, hitem, read⟩ := all x hx
      exact fits_of_read (inside item hitem) read
    | _ => cases h

end Kind

/-! ## Rows of lawful fields -/

namespace Fields

variable {σ : Type} {levels : Nat}

/-- A row is read back from keys that hold its entries and nothing else. -/
theorem readBy_entries {l : Fields σ} (distinct : l.keys.Nodup)
    (kinds : l.All fun f => f.kind.Lawful levels) (x : σ) {held : String → Option Value}
    (h : ∀ key ∈ l.keys, held key = (l.entries x).lookup key) : l.readBy held = .ok x := by
  induction l with
  | field f =>
    have here := h f.key (by simp [keys_field])
    rw [readBy, here, entries]
    split
    · exact (kinds.absent_iff f.key x).mpr ‹_›
    · simp only [List.lookup_cons_self]
      exact kinds.read_write f.key x
  | both first second ih₁ ih₂ =>
    obtain ⟨x, y⟩ := x
    obtain ⟨distinct₁, distinct₂, apart⟩ := List.nodup_append.mp distinct
    -- The keys of the two parts differ, so each part finds its own entries only.
    have read₁ : readBy first held = .ok x := by
      refine ih₁ distinct₁ kinds.1 x fun key hk => ?_
      rw [h key (by simp [keys_both, hk])]
      refine lookup_append_left fun hk' => ?_
      exact apart key hk key ((keys_entries_sublist second y).subset hk') rfl
    have read₂ : readBy second held = .ok y := by
      refine ih₂ distinct₂ kinds.2 y fun key hk => ?_
      rw [h key (by simp [keys_both, hk])]
      refine lookup_append_right fun hk' => ?_
      exact apart key ((keys_entries_sublist first x).subset hk') key hk rfl
    rw [readBy, read₁, bind_ok, read₂, bind_ok]

/-- A row reads from nothing exactly if it has no entries. -/
theorem readBy_none_iff {l : Fields σ} (kinds : l.All fun f => f.kind.Lawful levels) (x : σ) :
    l.readBy (fun _ => none) = .ok x ↔ l.entries x = [] := by
  rw [readBy_eq_ok]
  induction l with
  | field f =>
    refine (kinds.absent_iff f.key x).trans ?_
    rw [entries]
    split <;> simp_all
  | both first second ih₁ ih₂ =>
    obtain ⟨x, y⟩ := x
    rw [entries, List.append_eq_nil_iff, ← ih₁ kinds.1, ← ih₂ kinds.2, Layout.AllOf]

/-- What is read from values that fit can be written. -/
theorem fits_of_readBy {l : Fields σ} (kinds : l.All fun f => f.kind.Lawful levels) {n : Nat}
    {held : String → Option Value} (fits : ∀ {key v}, held key = some v → Fits n v) {x : σ}
    (h : l.readBy held = .ok x) : ∀ e ∈ l.entries x, Fits levels e.2 := by
  have fields := (kinds.allOf x).and (readBy_eq_ok.mp h)
  refine forall_mem_entries (P := fun _ v => Fits levels v) (fields.imp fun f y hy nonzero => ?_)
  obtain ⟨lawful, read⟩ := hy
  cases hv : held f.key with
  | none =>
    -- Nothing is read as zero only, and zeros are not pushed.
    rw [hv] at read
    rw [(lawful.absent_iff f.key y).mp read] at nonzero
    cases nonzero
  | some v =>
    rw [hv] at read
    exact lawful.fits_of_read (fits hv) read

/-- The format carries what every field writes. -/
def Fit (l : Fields σ) (levels : Nat) (x : σ) : Prop :=
  l.AllOf (fun f y => Fits levels (f.kind.writer.write y)) x

/-- The entries of a row fit if the values of all fields do. -/
theorem fits_entries {l : Fields σ} {x : σ} (h : l.Fit levels x) :
    ∀ e ∈ l.entries x, Fits levels e.2 := by
  refine forall_mem_entries (P := fun _ v => Fits levels v) (h.imp fun f y fits _ => ?_)
  exact fits

theorem entries_ne_nil {l : Fields σ} (kinds : l.All fun f => f.kind.Lawful levels) (x : σ) :
    ∀ e ∈ l.entries x, e.2 ≠ .nil := by
  refine forall_mem_entries (P := fun _ v => v ≠ .nil) ((kinds.allOf x).imp fun f y lawful _ => ?_)
  exact lawful.write_ne_nil y

end Fields

/-! ## Maps as pending entries -/

theorem firstRepeated_eq_none {keys : List String} :
    ∀ {seen : List String}, firstRepeated seen keys = none ↔ keys.Nodup ∧ ∀ k ∈ keys, k ∉ seen := by
  induction keys with
  | nil => intro seen; simp [firstRepeated]
  | cons key keys ih =>
    intro seen
    rw [firstRepeated]
    split
    · rename_i old
      simp only [List.contains_eq_mem, decide_eq_true_eq] at old
      simp [old]
    · rename_i new
      simp only [List.contains_eq_mem, decide_eq_true_eq] at new
      rw [ih, List.nodup_cons]
      constructor
      · rintro ⟨distinct, all⟩
        refine ⟨⟨fun hk => all key hk (by simp), distinct⟩, fun k hk => ?_⟩
        rcases List.mem_cons.mp hk with rfl | hk
        · exact new
        · exact fun old => all k hk (by simp [old])
      · rintro ⟨⟨hkey, distinct⟩, all⟩
        refine ⟨distinct, fun k hk old => ?_⟩
        rcases List.mem_cons.mp old with rfl | old
        · exact hkey hk
        · exact all k (by simp [hk]) old

namespace Pending

theorem ofValue_map (key : String) {es : List (String × Value)} (distinct : (es.map Prod.fst).Nodup) :
    ofValue key (.map es) = .ok ⟨sortByKey es⟩ := by
  have none : firstRepeated [] (es.map Prod.fst) = none :=
    firstRepeated_eq_none.mpr ⟨distinct, by simp⟩
  simp only [ofValue, none]

/-- Pending entries come from a map whose keys do not repeat, or from nothing. -/
theorem ofValue_ok {key : String} {v : Value} {p : Pending} (h : ofValue key v = .ok p) :
    (v = .nil ∧ p = empty) ∨
      ∃ es, v = .map es ∧ (es.map Prod.fst).Nodup ∧ p = ⟨sortByKey es⟩ := by
  cases v with
  | nil => cases h; exact .inl ⟨rfl, rfl⟩
  | map es =>
    simp only [ofValue] at h
    split at h
    · cases h
    · rename_i none
      cases h
      exact .inr ⟨es, rfl, (firstRepeated_eq_none.mp none).1, rfl⟩
  | _ => cases h

theorem find?_sortByKey {es : List (String × Value)} (distinct : (es.map Prod.fst).Nodup)
    (key : String) : (⟨sortByKey es⟩ : Pending).find? key = (⟨es⟩ : Pending).find? key := by
  unfold find?
  rw [lookup_eq_of_perm distinct (sortByKey_perm es).symm]

theorem find?_of_ne_nil {es : List (String × Value)} (h : ∀ e ∈ es, e.2 ≠ .nil) (key : String) :
    (⟨es⟩ : Pending).find? key = es.lookup key :=
  find?_of_lookup_ne fun nothing => h (key, .nil) (mem_of_lookup nothing) rfl

theorem finish_eq_ok {p : Pending} : p.finish = .ok () ↔ p.entries = [] := by
  rw [finish]
  cases p.entries with
  | nil => exact ⟨fun _ => rfl, fun _ => rfl⟩
  | cons => exact ⟨nofun, nofun⟩

theorem finish_eq_error {p : Pending} {e : Error} :
    p.finish = .error e ↔ ∃ first rest, p.entries = first :: rest ∧ e = .unknownField first.1 := by
  rw [finish]
  cases p.entries with
  | nil => exact ⟨nofun, nofun⟩
  | cons first rest =>
    constructor
    · rintro ⟨⟩
      exact ⟨first, rest, rfl, rfl⟩
    · rintro ⟨_, _, ⟨⟩, rfl⟩
      rfl

theorem finish_without {p : Pending} {keys : List String} (h : ∀ e ∈ p.entries, e.1 ∈ keys) :
    (p.without keys).finish = .ok () := by
  refine finish_eq_ok.mpr (List.filter_eq_nil_iff.mpr fun e he => ?_)
  simpa using h e he

theorem mem_of_finish {p : Pending} {keys : List String} {u : Unit}
    (h : (p.without keys).finish = .ok u) : ∀ e ∈ p.entries, e.1 ∈ keys := by
  intro e he
  simpa using List.filter_eq_nil_iff.mp (finish_eq_ok.mp h) e he

theorem find?_fits {n : Nat} {es : List (String × Value)} (fits : ∀ e ∈ es, Fits n e.2)
    {key : String} {v : Value} (h : (⟨es⟩ : Pending).find? key = some v) : Fits n v :=
  fits (key, v) (mem_of_lookup (find?_eq_some.mp h).1)

end Pending

/-! ## Records of lawful fields -/

namespace Record

variable {ρ : Type} [Record ρ] {levels : Nat}

theorem entriesOf_list (x : ρ) :
    (entriesOf x).list = Fields.entries (fields (ρ := ρ)) (row x) := by
  show ((fields (ρ := ρ)).push (row x) Entries.empty).list = _
  rw [Fields.push_list]
  rfl

/-- A record depends only on what its keys hold. -/
theorem read_eq (distinct : (keys ρ).Nodup) (p : Pending) :
    (Canonical.read p : Except Error (ρ × Pending)) =
      (Fields.readBy fields fun k => p.find? k).map fun r => (ofRow r, p.without (keys ρ)) := by
  show (Fields.read (fields (ρ := ρ)) p).map (fun x => (ofRow x.1, x.2)) = _
  rw [Fields.read_eq _ distinct, map_map]
  rfl

/-- A record is read from a map by what its keys hold, and then no key may be left. -/
theorem decodeValue_map (distinctKeys : (keys ρ).Nodup) (key : String)
    {es : List (String × Value)} (distinct : (es.map Prod.fst).Nodup) :
    (decodeValue key (.map es) : Except Error ρ) =
      (Fields.readBy fields fun k => (⟨es⟩ : Pending).find? k) >>= fun r =>
        (Pending.without (keys ρ) ⟨sortByKey es⟩).finish >>= fun _ => .ok (ofRow r) := by
  have same : (Fields.readBy (fields (ρ := ρ)) fun k => (⟨sortByKey es⟩ : Pending).find? k) =
      Fields.readBy fields fun k => (⟨es⟩ : Pending).find? k :=
    Fields.readBy_congr fun k _ => Pending.find?_sortByKey distinct k
  rw [decodeValue, Pending.ofValue_map key distinct, bind_ok, read_eq distinctKeys, same]
  cases Fields.readBy (fields (ρ := ρ)) fun k => (⟨es⟩ : Pending).find? k <;> rfl

/-- What a record was read from: a map with no other keys, or nothing. -/
theorem of_decodeValue (distinctKeys : (keys ρ).Nodup) {key : String} {v : Value} {x : ρ}
    (h : decodeValue key v = .ok x) :
    ∃ es, (v = .map es ∨ v = .nil ∧ es = []) ∧ (es.map Prod.fst).Nodup ∧
      (∀ e ∈ es, e.1 ∈ keys ρ) ∧
      (Fields.readBy fields fun k => (⟨es⟩ : Pending).find? k) = .ok (row x) := by
  have ofMap {es : List (String × Value)} (distinct : (es.map Prod.fst).Nodup)
      (h : decodeValue key (.map es) = .ok x) : (∀ e ∈ es, e.1 ∈ keys ρ) ∧
      (Fields.readBy fields fun k => (⟨es⟩ : Pending).find? k) = .ok (row x) := by
    rw [decodeValue_map distinctKeys key distinct] at h
    obtain ⟨r, hr, h⟩ := bind_eq_ok.mp h
    obtain ⟨_, nothing, h⟩ := bind_eq_ok.mp h
    cases h
    refine ⟨fun e he => ?_, by rw [hr, row_ofRow]⟩
    exact Pending.mem_of_finish nothing e ((sortByKey_perm es).mem_iff.mpr he)
  obtain ⟨p, hp, -⟩ := bind_eq_ok.mp h
  rcases Pending.ofValue_ok hp with ⟨rfl, -⟩ | ⟨es, rfl, distinct, -⟩
  · exact ⟨[], .inr ⟨rfl, rfl⟩, .nil, ofMap .nil h⟩
  · exact ⟨es, .inl rfl, distinct, ofMap distinct h⟩

/-- The map of a record fits if its entries do. -/
theorem fits_toValue (l : (fields (ρ := ρ)).Lawful levels) {x : ρ}
    (h : ∀ e ∈ Fields.entries fields (row x), Fits levels e.2) :
    Fits (levels + 1) (entriesOf x).toValue := by
  have perm := sortByKey_perm (Fields.entries fields (row x))
  show Fits (levels + 1) (.map (sortByKey (entriesOf x).list))
  rw [entriesOf_list]
  refine .map ?_ (fun e he => ?_) fun e he => ?_
  · rw [perm.length_eq]
    exact Nat.lt_of_le_of_lt (Fields.length_entries_le _ _) l.size
  · exact l.short e.1 (Fields.key_mem_of_mem_entries (perm.mem_iff.mp he))
  · exact h e (perm.mem_iff.mp he)

/-- A record of lawful fields is lawful. -/
theorem lawful (l : (fields (ρ := ρ)).Lawful levels) : Canonical.Lawful ρ (levels + 1) where
  decodeValue_toValue key x := by
    have distinct := Fields.nodup_keys_entries l.distinct (row x)
    have sorted : ((sortByKey (Fields.entries fields (row x))).map Prod.fst).Nodup :=
      (ascending_sortByKey distinct).nodup
    show decodeValue key (.map (sortByKey (entriesOf x).list)) = _
    rw [entriesOf_list, decodeValue_map l.distinct key sorted,
      Fields.readBy_entries l.distinct l.kinds (row x) fun k _ => ?held, bind_ok,
      Pending.finish_without fun e he => ?keys, bind_ok, ofRow_row]
    case held =>
      rw [Pending.find?_sortByKey distinct,
        Pending.find?_of_ne_nil (Fields.entries_ne_nil l.kinds (row x))]
    case keys =>
      rw [sortByKey_of_ascending (ascending_sortByKey distinct)] at he
      exact Fields.key_mem_of_mem_entries ((sortByKey_perm _).mem_iff.mp he)
  decodeValue_empty key x := by
    have none : (entriesOf x).isEmpty = true ↔ Fields.entries fields (row x) = [] := by
      rw [← entriesOf_list, Entries.isEmpty, List.isEmpty_iff]
    rw [none, ← Fields.readBy_none_iff l.kinds, @decodeValue_map _ _ l.distinct key [] .nil,
      bind_eq_ok]
    constructor
    · rintro ⟨r, hr, h⟩
      obtain ⟨_, -, h⟩ := bind_eq_ok.mp h
      cases h
      rw [row_ofRow]
      exact hr
    · intro h
      exact ⟨row x, h, by rw [ofRow_row]; rfl⟩
  fits_of_decodeValue {n key v x} fits h := by
    obtain ⟨es, hv, -, -, read⟩ := of_decodeValue l.distinct h
    refine fits_toValue l (Fields.fits_of_readBy l.kinds (n := n) (fun held => ?_) read)
    refine Pending.find?_fits (fun e he => ?_) held
    rcases hv with rfl | ⟨rfl, rfl⟩
    · cases fits with
      | map _ _ inside => exact (inside e he).mono (Nat.le_succ _)
    · cases he

end Record

end LedgerCodec
