import LedgerCodec.Proofs.Record.Exact
/-!
# What is carried over

A record that was read from a map is written as a map again, and the two need not
be the same. A `Sense` says what becomes of the values under a key, with no regard
to readers and writers; from it follows which entries are `carried` over from one
map to the other, and as what. A kind of field means a sense if whatever it reads
it writes as the sense says, and a record whose fields mean theirs writes what is
carried over: `Kind.means_nested`.
-/

namespace LedgerCodec

open Wire

/-! ## Senses -/

/-- What a value comes to under the key that holds it. -/
inductive Reading
  /-- The key takes no such value. -/
  | wrong
  /-- The zero of what the key stands for. -/
  | zero
  | is (v : Value)

instance decidableEqWrong : (r : Reading) → Decidable (r = .wrong)
  | .wrong => isTrue rfl
  | .zero => isFalse nofun
  | .is _ => isFalse nofun

/-- The value that is written, if any is. -/
def Reading.value? : Reading → Option Value
  | is v => some v
  | _ => none

theorem Reading.value?_eq_some {r : Reading} {v : Value} : r.value? = some v ↔ r = .is v := by
  cases r <;> simp [value?]

/-- What the values under a key come to, if they are something. -/
abbrev Sense : Type := Value → Reading

/-- What the keys of a map stand for. -/
abbrev Senses : Type := List (String × Sense)

namespace Senses

variable (senses : Senses)

/-- The keys. -/
def keys : List String :=
  senses.map Prod.fst

/-- What an entry comes to. Nothing is zero under every key. -/
def entry (key : String) (v : Value) : Reading :=
  match senses.lookup key, v with
  | none, _ => .wrong
  | some _, .nil => .zero
  | some sense, v => sense v

/-- The entry that is written for an entry, if any is. -/
def carry (e : String × Value) : Option (String × Value) :=
  (senses.entry e.1 e.2).value?.map fun w => (e.1, w)

/-- The entries that are written for those of a map, in the order of their keys. -/
def carried (es : List (String × Value)) : List (String × Value) :=
  sortByKey (es.filterMap senses.carry)

end Senses

namespace Sense

/-- A number. -/
def number : Sense
  | .uint n => if n = 0 then .zero else .is (.uint n)
  | _ => .wrong

/-- A number below a bound. -/
def narrow (bound : Nat) : Sense
  | .uint n => if n.toNat < bound then number (.uint n) else .wrong
  | _ => .wrong

/-- A truth value. -/
def flag : Sense
  | .bool b => if b then .is (.bool true) else .zero
  | _ => .wrong

/-- A text. -/
def text : Sense
  | .str s => if s = "" then .zero else .is (.str s)
  | _ => .wrong

/-- Bytes, for which a text may stand. -/
def bytes (ofBytes : Bytes → Reading) : Sense
  | .bin bs => ofBytes bs
  | .str s => ofBytes (utf8 s)
  | _ => .wrong

/-- A byte string. -/
def blob : Sense :=
  bytes fun bs => if bs = [] then .zero else .is (.bin bs)

/-- A byte string of fixed length. The empty one stands for zeros. -/
def fixed (n : Nat) : Sense :=
  bytes fun bs =>
    if bs = [] ∨ bs = List.replicate n 0 then .zero
    else if bs.length = n then .is (.bin bs) else .wrong

/-- A map with certain keys, none of them repeated. What is carried over from it is written. -/
def record (senses : Senses) : Sense
  | .map es =>
    if (es.map Prod.fst).Nodup ∧ ∀ e ∈ es, senses.entry e.1 e.2 ≠ .wrong then
      if (senses.carried es).isEmpty then .zero else .is (.map (senses.carried es))
    else .wrong
  | _ => .wrong

end Sense

/-- The entries of one map are those that the entries of another come to. -/
structure Senses.Carries (senses : Senses) (es es' : List (String × Value)) : Prop where
  distinct : (es.map Prod.fst).Nodup
  ascending : Ascending es'
  /-- A key holds what its value comes to, unless that is zero. -/
  mem_iff (key : String) (w : Value) :
    (key, w) ∈ es' ↔ ∃ v, (key, v) ∈ es ∧ senses.entry key v = .is w

/-! ## Entries carried over -/

namespace Senses

variable {senses : Senses} {es : List (String × Value)} {key : String} {v w : Value}

theorem carry_eq_some {e e' : String × Value} :
    senses.carry e = some e' ↔ e.1 = e'.1 ∧ senses.entry e.1 e.2 = .is e'.2 := by
  obtain ⟨key', w⟩ := e'
  simp only [carry, Option.map_eq_some_iff, Reading.value?_eq_some, Prod.mk.injEq]
  constructor
  · rintro ⟨w, is, rfl, rfl⟩
    exact ⟨rfl, is⟩
  · rintro ⟨rfl, is⟩
    exact ⟨w, is, rfl, rfl⟩

theorem keys_filterMap_carry_sublist :
    ((es.filterMap senses.carry).map Prod.fst).Sublist (es.map Prod.fst) := by
  induction es with
  | nil => exact .slnil
  | cons e es ih =>
    rw [List.filterMap_cons]
    split
    · exact ih.cons _
    · rename_i e' h
      rw [List.map_cons, List.map_cons, ← (carry_eq_some.mp h).1]
      exact ih.cons_cons _

theorem carries_carried (distinct : (es.map Prod.fst).Nodup) :
    senses.Carries es (senses.carried es) where
  distinct := distinct
  ascending := ascending_sortByKey (distinct.sublist keys_filterMap_carry_sublist)
  mem_iff key w := by
    rw [carried, (sortByKey_perm _).mem_iff, List.mem_filterMap]
    constructor
    · rintro ⟨⟨k, v⟩, he, h⟩
      obtain ⟨rfl, is⟩ := carry_eq_some.mp h
      exact ⟨v, he, is⟩
    · rintro ⟨v, he, is⟩
      exact ⟨(key, v), he, carry_eq_some.mpr ⟨rfl, is⟩⟩

/-- What is written for a map is a map of what is carried over. -/
theorem carries_of_record (h : Sense.record senses v = .is w) :
    ∃ es es', v = .map es ∧ w = .map es' ∧ senses.Carries es es' := by
  unfold Sense.record at h
  split at h
  · rename_i es
    split at h
    · rename_i right
      split at h
      · cases h
      · cases h
        exact ⟨es, _, rfl, rfl, carries_carried right.1⟩
    · cases h
  · cases h

theorem entry_of_lookup {sense : Sense} (here : senses.lookup key = some sense)
    (some : v ≠ .nil) : senses.entry key v = sense v := by
  unfold entry
  rw [here]
  cases v with
  | nil => exact absurd rfl some
  | _ => rfl

theorem entry_nil (known : key ∈ senses.keys) : senses.entry key .nil = .zero := by
  unfold entry
  cases here : senses.lookup key with
  | none => exact absurd known (lookup_eq_none.mp here)
  | some sense => rfl

theorem sense_of_entry (h : senses.entry key v = .is w) :
    ∃ sense, senses.lookup key = some sense ∧ sense v = .is w := by
  unfold entry at h
  split at h
  · cases h
  · cases h
  · rename_i here _
    exact ⟨_, here, h⟩

theorem mem_keys_of_entry (h : senses.entry key v = .is w) : key ∈ senses.keys := by
  obtain ⟨sense, here, -⟩ := sense_of_entry h
  exact List.mem_map.mpr ⟨_, mem_of_lookup here, rfl⟩

/-- What a key comes to in a map. -/
def comesTo (senses : Senses) (es : List (String × Value)) (key : String) : Reading :=
  match (⟨es⟩ : Pending).find? key with
  | some v => senses.entry key v
  | none => .zero

/-- A key comes to what its entry does. -/
theorem comesTo_of_mem (distinct : (es.map Prod.fst).Nodup) (known : key ∈ senses.keys)
    (h : (key, v) ∈ es) : senses.comesTo es key = senses.entry key v := by
  have here : es.lookup key = some v := (lookup_eq_some distinct).mpr h
  unfold comesTo Pending.find?
  cases v with
  | nil => simp only [here, entry_nil known]
  | _ => simp only [here]

theorem comesTo_eq_is (distinct : (es.map Prod.fst).Nodup) :
    key ∈ senses.keys ∧ senses.comesTo es key = .is w ↔
      ∃ v, (key, v) ∈ es ∧ senses.entry key v = .is w := by
  constructor
  · rintro ⟨-, h⟩
    unfold comesTo at h
    split at h
    · rename_i v held
      exact ⟨v, mem_of_lookup (Pending.find?_eq_some.mp held).1, h⟩
    · cases h
  · rintro ⟨v, he, is⟩
    have known := mem_keys_of_entry is
    exact ⟨known, (comesTo_of_mem distinct known he).trans is⟩

/-- Entries are those carried over if they are what the keys come to. -/
theorem sortByKey_eq_carried {l : List (String × Value)} (nodup : (l.map Prod.fst).Nodup)
    (distinct : (es.map Prod.fst).Nodup) (same : ∀ key w,
      (key, w) ∈ l ↔ key ∈ senses.keys ∧ senses.comesTo es key = .is w) :
    sortByKey l = senses.carried es := by
  have carries : senses.Carries es (senses.carried es) := carries_carried distinct
  refine sortByKey_eq_of_mem_iff nodup carries.ascending fun (key, w) => ?_
  rw [same, comesTo_eq_is distinct, carries.mem_iff]

end Senses

/-! ## Kinds that mean a sense -/

/-- What a value of a field comes to. -/
def Writer.reading {τ : Type} (writer : Writer τ) (x : τ) : Reading :=
  if writer.isZero x then .zero else .is (writer.write x)

theorem Writer.value?_reading {τ : Type} (writer : Writer τ) (x : τ) :
    (writer.reading x).value? = writer.written x := by
  unfold Writer.reading Writer.written
  split <;> rfl

/-- What a kind of field reads it writes as the sense says. -/
def Kind.Means {τ : Type} (k : Kind τ) (sense : Sense) : Prop :=
  ∀ {key : String} {v : Value} {x : τ}, v ≠ .nil → k.reader.read key v = .ok x →
    sense v = k.writer.reading x

/-- A field stands under a key whose sense its kind means. -/
def Field.Means {τ : Type} (senses : Senses) (f : Field τ) : Prop :=
  ∃ sense, senses.lookup f.key = some sense ∧ f.kind.Means sense

namespace Kind

theorem means_uint64 : uint64.Means .number := by
  intro key v x _ h
  obtain rfl := Field.uint_read_ok h
  simp [Sense.number, Writer.reading, uint64, Writer.uint]

theorem means_narrow {τ : Type} (w : Width τ) : (narrow w).Means (.narrow w.bound) := by
  intro key v x _ h
  obtain ⟨n, rfl, small, rfl⟩ := Field.narrow_read_ok h
  refine (if_pos small).trans ?_
  simp [Sense.number, Writer.reading, narrow, Writer.narrow, Writer.uint, w.toUInt64_ofNat small]

theorem means_bool : bool.Means .flag := by
  intro key v x _ h
  cases v with
  | bool b =>
    obtain rfl : b = x := Except.ok.inj h
    cases b <;> rfl
  | _ => cases h

theorem means_text : text.Means .text := by
  intro key v x _ h
  obtain rfl := text_read_ok h
  simp [Sense.text, Writer.reading, text, Writer.text]

theorem bytes_of_blob_read {ofBytes : Bytes → Reading} {key : String} {v : Value} {bs : Bytes}
    (some : v ≠ .nil) (h : Reader.blob.read key v = .ok bs) :
    Sense.bytes ofBytes v = ofBytes bs := by
  rcases blob_read_ok h with rfl | ⟨s, rfl, rfl⟩ | ⟨rfl, rfl⟩
  · rfl
  · rfl
  · exact absurd rfl some

theorem means_blob : blob.Means .blob := by
  intro key v x some h
  rw [Sense.blob, bytes_of_blob_read some h]
  simp [Writer.reading, blob, Writer.blob]

theorem isZero_iff_replicate {n : Nat} {s : Sized n} :
    s.isZero = true ↔ s.bytes = List.replicate n 0 :=
  Sized.isZero_iff.trans ⟨fun h => h ▸ rfl, fun h => Sized.ext_bytes h⟩

theorem means_fixed {role : Role} : (fixed role).Means (.fixed role.size) := by
  intro key v x some h
  obtain ⟨s, hs, rfl⟩ := map_eq_ok.mp h
  obtain ⟨bs, hbs, hs⟩ := bind_eq_ok.mp hs
  rw [Sense.fixed, bytes_of_blob_read some hbs]
  show _ = if s.isZero then Reading.zero else .is (.bin s.bytes)
  simp only [isZero_iff_replicate]
  split at hs
  · rename_i empty
    cases hs
    exact (if_pos (.inl (List.isEmpty_iff.mp empty))).trans (if_pos rfl).symm
  · rename_i nonempty
    split at hs
    · rename_i found
      cases hs
      obtain rfl := Sized.bytes_of_ofBytes? found
      simp only [mt List.isEmpty_iff.mpr nonempty, false_or, s.length_bytes, if_true]
    · cases hs

end Kind

/-! ## Rows -/

/-- Fields come to what they write. -/
theorem Field.Means.comesTo {τ : Type} {f : Field τ} {senses : Senses} {levels : Nat}
    (means : f.Means senses) (lawful : f.kind.Lawful levels) {es : List (String × Value)} {x : τ}
    (h : f.kind.reader.ofHeld f.key ((⟨es⟩ : Pending).find? f.key) = .ok x) :
    senses.comesTo es f.key = f.kind.writer.reading x := by
  obtain ⟨sense, here, means⟩ := means
  unfold Senses.comesTo
  cases held : (⟨es⟩ : Pending).find? f.key with
  | none =>
    rw [held] at h
    exact (if_pos ((lawful.absent_iff f.key x).mp h)).symm
  | some v =>
    rw [held] at h
    have some := (Pending.find?_eq_some.mp held).2
    exact (Senses.entry_of_lookup here some).trans (means some h)

namespace Fields

variable {σ : Type} {l : Fields σ}

/-- The entries of a row are what its keys come to. -/
theorem mem_entries_iff_comesTo {comesTo : String → Reading} {x : σ} {key : String} {w : Value}
    (h : l.AllOf (fun f y => comesTo f.key = f.kind.writer.reading y) x) :
    (key, w) ∈ l.entries x ↔ key ∈ l.keys ∧ comesTo key = .is w := by
  have written : l.AllOf (fun f y => (comesTo f.key).value? = f.kind.writer.written y) x := by
    refine h.imp fun f y here => ?_
    rw [here, Writer.value?_reading]
  rw [← Reading.value?_eq_some]
  exact @mem_entries_iff_written _ l x (fun key => (comesTo key).value?) written (key, w)

theorem comesTo_ne_wrong {comesTo : String → Reading} {x : σ}
    (h : l.AllOf (fun f y => comesTo f.key = f.kind.writer.reading y) x) {key : String}
    (hk : key ∈ l.keys) : comesTo key ≠ .wrong := by
  refine h.of_mem_collect hk fun f y here reads => ?_
  rw [← here, reads, Writer.reading]
  split <;> exact nofun

theorem comesTo_of_readBy {senses : Senses} {levels : Nat}
    (kinds : l.All fun f => f.kind.Lawful levels) (means : l.All (Field.Means senses))
    {es : List (String × Value)} {x : σ}
    (h : (l.readBy fun key => (⟨es⟩ : Pending).find? key) = .ok x) :
    l.AllOf (fun f y => senses.comesTo es f.key = f.kind.writer.reading y) x :=
  (((kinds.allOf x).and (means.allOf x)).and (readBy_eq_ok.mp h)).imp
    fun _ _ ⟨⟨lawful, means⟩, read⟩ => means.comesTo lawful read

end Fields

/-! ## Records -/

/-- A record inside a record means what its fields do. -/
theorem Kind.means_nested {ρ : Type} [Record ρ] {senses : Senses} {levels : Nat}
    (l : (Record.fields (ρ := ρ)).Lawful levels)
    (means : (Record.fields (ρ := ρ)).All (Field.Means senses))
    (keys : Record.keys ρ = senses.keys) : (nested : Kind ρ).Means (.record senses) := by
  intro key v x some h
  obtain ⟨es, hes, distinct, known, read⟩ := Record.of_decodeValue l.distinct h
  obtain rfl : v = .map es := hes.resolve_right fun none => some none.1
  have reads := Fields.comesTo_of_readBy l.kinds means read
  have right : ∀ e ∈ es, senses.entry e.1 e.2 ≠ .wrong := by
    intro (key, v) he
    have hk := known (key, v) he
    rw [← Senses.comesTo_of_mem distinct (keys ▸ hk) he]
    exact Fields.comesTo_ne_wrong reads hk
  have same : sortByKey (entriesOf x).list = senses.carried es := by
    rw [Record.entriesOf_list]
    refine Senses.sortByKey_eq_carried (Fields.nodup_keys_entries l.distinct _) distinct ?_
    intro key w
    rw [Fields.mem_entries_iff_comesTo reads, ← keys]
    rfl
  have empty : (entriesOf x).list.isEmpty = (senses.carried es).isEmpty := by
    rw [← same, (sortByKey_perm _).isEmpty_eq]
  show (if _ then _ else _) = if (entriesOf x).list.isEmpty then Reading.zero else
    .is (.map (sortByKey (entriesOf x).list))
  rw [if_pos ⟨distinct, right⟩, same, empty]

end LedgerCodec
