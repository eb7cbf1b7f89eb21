import LedgerCodec.Proofs.Wire.RoundTrip
/-!
# The grammar of wire values

`Encodes` lists the forms in which bytes spell a value: numbers and lengths in any width,
signed integers, texts that are UTF-8, containers that nest no deeper than a limit. Reading
accepts exactly these bytes and gives that value: `parse_eq_ok_iff`. So the checks that
are made before a container is read refuse nothing that the grammar has.
-/

namespace LedgerCodec.Wire

/-! ## The forms -/

/-- The forms of a number that a value begins with: it stands in the first byte if it is small, or
in the bytes after the first. -/
structure Forms where
  /-- Numbers below this may stand in the first byte. -/
  small : Nat
  /-- The first byte in which zero stands. -/
  base : UInt8
  /-- The other first bytes, and the width of the number after each. -/
  wide : List (UInt8 × Nat)

namespace Forms

/-- Integers from zero on. -/
def uint : Forms := ⟨128, 0x00, [(0xcc, 1), (0xcd, 2), (0xce, 4), (0xcf, 8)]⟩

/-- Lengths of texts. -/
def str : Forms := ⟨32, 0xa0, [(0xd9, 1), (0xda, 2), (0xdb, 4)]⟩

/-- Lengths of blobs, none of which stands in the first byte. -/
def bin : Forms := ⟨0, 0xc4, [(0xc4, 1), (0xc5, 2), (0xc6, 4)]⟩

/-- Lengths of lists. -/
def array : Forms := ⟨16, 0x90, [(0xdc, 2), (0xdd, 4)]⟩

/-- Lengths of maps. -/
def map : Forms := ⟨16, 0x80, [(0xde, 2), (0xdf, 4)]⟩

/-- The bytes are one of the forms of a number. -/
def Spells (f : Forms) (n : Nat) (bs : Bytes) : Prop :=
  (n < f.small ∧ bs = [f.base + UInt8.ofNat n]) ∨
    ∃ m ∈ f.wide, n < Bytes.capacity m.2 ∧ bs = m.1 :: Bytes.toBigEndian m.2 n

end Forms

/-- The first bytes of integers in two's complement, and the width of each. -/
def intMarkers : List (UInt8 × Nat) :=
  [(0xd0, 1), (0xd1, 2), (0xd2, 4), (0xd3, 8)]

/-- The value of an integer: signed only if it is negative. -/
def Value.ofInt (n : Int) : Value :=
  if 0 ≤ n then .uint (UInt64.ofNat n.toNat) else .int (Int64.ofInt n)

/-- An entry of a map with the bytes of its key and of its value. -/
structure SpelledEntry where
  key : String
  keyBytes : Bytes
  value : Value
  valueBytes : Bytes

namespace SpelledEntry

def entry (e : SpelledEntry) : String × Value :=
  (e.key, e.value)

def bytes (e : SpelledEntry) : Bytes :=
  e.keyBytes ++ e.valueBytes

end SpelledEntry

theorem Forms.length_pos_of_spells {f : Forms} {n : Nat} {bs : Bytes} (h : f.Spells n bs) :
    0 < bs.length := by
  rcases h with ⟨-, rfl⟩ | ⟨m, -, -, rfl⟩ <;> simp

/-- The bytes spell a value in which containers nest at most `levels` deep. No value begins with
the first byte of a float or of an extension, or with `0xc1`. -/
inductive Encodes : (levels : Nat) → Value → Bytes → Prop
  | nil {levels : Nat} : Encodes levels .nil [0xc0]
  | bool {levels : Nat} (b : Bool) : Encodes levels (.bool b) [if b then 0xc3 else 0xc2]
  | uint {levels : Nat} {n : UInt64} {bs : Bytes} (form : Forms.uint.Spells n.toNat bs) :
      Encodes levels (.uint n) bs
  | smallInt {levels : Nat} {n : Int} (low : -32 ≤ n) (negative : n < 0) :
      Encodes levels (.ofInt n) [UInt8.ofNat (n + 256).toNat]
  | int {levels : Nat} {n : Int} {marker : UInt8} {width : Nat}
      (known : (marker, width) ∈ intMarkers) (low : -(Bytes.capacity width / 2 : Nat) ≤ n)
      (high : n < (Bytes.capacity width / 2 : Nat)) :
      Encodes levels (.ofInt n)
        (marker :: Bytes.toBigEndian width (n % Bytes.capacity width).toNat)
  | str {levels : Nat} {s : String} {header : Bytes}
      (form : Forms.str.Spells (utf8 s).length header) : Encodes levels (.str s) (header ++ utf8 s)
  | bin {levels : Nat} {raw header : Bytes} (form : Forms.bin.Spells raw.length header) :
      Encodes levels (.bin raw) (header ++ raw)
  | array {levels : Nat} {items : List (Value × Bytes)} {header : Bytes}
      (form : Forms.array.Spells items.length header)
      (inside : ∀ i ∈ items, Encodes levels i.1 i.2) :
      Encodes (levels + 1) (.array (items.map Prod.fst)) (header ++ items.flatMap Prod.snd)
  | map {levels : Nat} {entries : List SpelledEntry} {header : Bytes}
      (form : Forms.map.Spells entries.length header)
      (keys : ∀ e ∈ entries, Encodes levels (.str e.key) e.keyBytes)
      (inside : ∀ e ∈ entries, Encodes levels e.value e.valueBytes) :
      Encodes (levels + 1) (.map (entries.map SpelledEntry.entry))
        (header ++ entries.flatMap SpelledEntry.bytes)

/-- Every value takes a byte at least, so a list has no more items than bytes. -/
theorem Encodes.length_pos {levels : Nat} {v : Value} {bs : Bytes} (h : Encodes levels v bs) :
    0 < bs.length := by
  cases h with
  | uint form => exact Forms.length_pos_of_spells form
  | str form | bin form | array form _ | map form _ _ =>
    have := Forms.length_pos_of_spells form
    rw [List.length_append]
    omega
  | _ => simp

/-! ## What each step takes -/

theorem take_eq_ok {count : Nat} {bs raw rest : Bytes} :
    take count bs = .ok (raw, rest) ↔ raw.length = count ∧ bs = raw ++ rest := by
  constructor
  · intro h
    refine ⟨length_of_take h, ?_⟩
    unfold take at h
    split at h
    · cases h
      exact (List.take_append_drop count bs).symm
    · cases h
  · rintro ⟨rfl, rfl⟩
    exact take_append raw rest

theorem takeNat_eq_ok {width n : Nat} {bs rest : Bytes} :
    takeNat width bs = .ok (n, rest) ↔
      n < Bytes.capacity width ∧ bs = Bytes.toBigEndian width n ++ rest := by
  constructor
  · intro h
    refine ⟨lt_of_takeNat h, ?_⟩
    obtain ⟨⟨digits, left⟩, taken, eq⟩ := bind_eq_ok.mp h
    cases eq
    obtain ⟨rfl, rfl⟩ := take_eq_ok.mp taken
    rw [Bytes.toBigEndian_ofBigEndian]
  · rintro ⟨small, rfl⟩
    rw [takeNat_toBigEndian, Nat.mod_eq_of_lt small]

theorem takeStr_eq_ok {length : Nat} {bs rest : Bytes} {v : Value} :
    takeStr length bs = .ok (v, rest) ↔
      ∃ s, v = .str s ∧ (utf8 s).length = length ∧ bs = utf8 s ++ rest := by
  constructor
  · intro h
    obtain ⟨⟨raw, left⟩, taken, eq⟩ := bind_eq_ok.mp h
    obtain ⟨len, rfl⟩ := take_eq_ok.mp taken
    dsimp only at eq
    split at eq
    · rename_i s hs
      cases eq
      rw [← utf8_of_ofUtf8? hs] at len ⊢
      exact ⟨s, rfl, len, rfl⟩
    · cases eq
  · rintro ⟨s, rfl, rfl, rfl⟩
    exact takeStr_append s rest

/-- A step gives a value exactly from bytes that spell it, and leaves the rest. -/
def Reads {α : Type} (step : Bytes → Except Error (α × Bytes)) (spells : α → Bytes → Prop) : Prop :=
  ∀ bs a rest, step bs = .ok (a, rest) ↔ ∃ front, spells a front ∧ bs = front ++ rest

section Repeat

variable {α β : Type} {step : Bytes → Except Error (α × Bytes)} {spelled : β → Prop}
  {result : β → α} {bytes : β → Bytes}

theorem repeatStep_eq_ok
    (reads : Reads step fun a bs => ∃ b, spelled b ∧ result b = a ∧ bytes b = bs) {count : Nat}
    {read xs : List α} {bs rest : Bytes} : repeatStep step count read bs = .ok (xs, rest) ↔
      ∃ parts : List β, xs = read.reverse ++ parts.map result ∧ parts.length = count ∧
        (∀ b ∈ parts, spelled b) ∧ bs = parts.flatMap bytes ++ rest := by
  -- On the count, for anything that was read before: the items come in reverse.
  induction count generalizing read bs with
  | zero =>
    constructor
    · intro h
      cases h
      exact ⟨[], by simp, rfl, by simp, rfl⟩
    · rintro ⟨parts, rfl, none, -, rfl⟩
      obtain rfl := List.length_eq_zero_iff.mp none
      simp [repeatStep]
  | succ count ih =>
    rw [repeatStep, bind_eq_ok]
    constructor
    · rintro ⟨⟨a, left⟩, first, later⟩
      obtain ⟨_, ⟨b, good, rfl, rfl⟩, rfl⟩ := (reads _ _ _).mp first
      obtain ⟨parts, rfl, rfl, all, rfl⟩ := ih.mp later
      refine ⟨b :: parts, by simp, rfl, ?_, by simp⟩
      exact List.forall_mem_cons.mpr ⟨good, all⟩
    · rintro ⟨parts, rfl, len, all, rfl⟩
      cases parts with
      | nil => cases len
      | cons b parts =>
        obtain ⟨good, all⟩ := List.forall_mem_cons.mp all
        refine ⟨(result b, parts.flatMap bytes ++ rest), ?_, ?_⟩
        · rw [List.flatMap_cons, List.append_assoc]
          exact (reads _ _ _).mpr ⟨_, ⟨b, good, rfl, rfl⟩, rfl⟩
        · exact ih.mpr ⟨parts, by simp, by simpa using len, all, rfl⟩

end Repeat

section Inside

variable {levels : Nat} {value : Bytes → Except Error (Value × Bytes)}

/-- The bytes of the key and of the value are those of values in `levels` containers. -/
def SpelledEntry.Encoded (levels : Nat) (e : SpelledEntry) : Prop :=
  Encodes levels (.str e.key) e.keyBytes ∧ Encodes levels e.value e.valueBytes

theorem reads_entryStep (reads : Reads value (Encodes levels)) :
    Reads (entryStep value) fun entry bs =>
      ∃ e : SpelledEntry, e.Encoded levels ∧ e.entry = entry ∧ e.bytes = bs := by
  intro bs entry rest
  rw [entryStep, bind_eq_ok]
  constructor
  · rintro ⟨⟨key, left⟩, first, h⟩
    obtain ⟨keyBytes, keySpelled, rfl⟩ := (reads _ _ _).mp first
    dsimp only at h
    split at h
    · rename_i key
      obtain ⟨⟨v, after⟩, second, eq⟩ := bind_eq_ok.mp h
      obtain ⟨valueBytes, valueSpelled, rfl⟩ := (reads _ _ _).mp second
      cases eq
      refine ⟨_, ⟨⟨key, keyBytes, v, valueBytes⟩, ⟨keySpelled, valueSpelled⟩, rfl, rfl⟩, ?_⟩
      rw [SpelledEntry.bytes, List.append_assoc]
    · cases h
  · rintro ⟨_, ⟨e, ⟨keySpelled, valueSpelled⟩, rfl, rfl⟩, rfl⟩
    refine ⟨(.str e.key, e.valueBytes ++ rest), (reads _ _ _).mpr ⟨_, keySpelled, ?_⟩, ?_⟩
    · rw [SpelledEntry.bytes, List.append_assoc]
    · dsimp only
      rw [(reads _ _ _).mpr ⟨_, valueSpelled, rfl⟩, bind_ok]
      rfl

theorem SpelledEntry.Encoded.length_ge {e : SpelledEntry} (h : e.Encoded levels) :
    2 ≤ e.bytes.length := by
  have key := h.1.length_pos
  have value := h.2.length_pos
  rw [SpelledEntry.bytes, List.length_append]
  omega

/-- What `inner` reads are the values that may stand inside a container at `levels`. -/
def InnerReads (levels : Nat) : Inner → Prop
  | none => levels = 0
  | some value => ∃ k, levels = k + 1 ∧ Reads value (Encodes k)

variable {inner : Inner}

theorem takeArray_eq_ok (below : InnerReads levels inner) {length : Nat} {bs rest : Bytes}
    {v : Value} : takeArray inner length bs = .ok (v, rest) ↔
      ∃ k, levels = k + 1 ∧ ∃ items : List (Value × Bytes), v = .array (items.map Prod.fst) ∧
        items.length = length ∧ (∀ i ∈ items, Encodes k i.1 i.2) ∧
        bs = items.flatMap Prod.snd ++ rest := by
  have parts {k : Nat} {value : Bytes → Except Error (Value × Bytes)}
      (reads : Reads value (Encodes k)) :
      Reads value fun v bs => ∃ i : Value × Bytes, Encodes k i.1 i.2 ∧ i.1 = v ∧ i.2 = bs := by
    simpa using reads
  constructor
  · intro h
    unfold takeArray at h
    split at h
    · cases h
    obtain ⟨k, rfl, reads⟩ := below
    split at h
    · obtain ⟨⟨xs, left⟩, repeated, eq⟩ := bind_eq_ok.mp h
      obtain ⟨items, rfl, len, all, rfl⟩ := (repeatStep_eq_ok (parts reads)).mp repeated
      cases eq
      exact ⟨k, rfl, items, rfl, len, all, rfl⟩
    · cases h
  · rintro ⟨k, rfl, items, rfl, rfl, all, rfl⟩
    cases inner with
    | none => cases below
    | some value =>
      obtain ⟨_, eq, reads⟩ := below
      cases eq
      -- Each item takes a byte, so the early check lets the list pass.
      have enough := length_flatMap_ge Prod.snd 1 items fun i hi => (all i hi).length_pos
      rw [takeArray]
      dsimp only
      rw [if_pos (by rw [Bytes.hasAtLeast_iff, List.length_append]; omega),
        (repeatStep_eq_ok (parts reads)).mpr ⟨items, rfl, rfl, all, rfl⟩, bind_ok]
      rfl

theorem takeMap_eq_ok (below : InnerReads levels inner) {length : Nat} {bs rest : Bytes}
    {v : Value} : takeMap inner length bs = .ok (v, rest) ↔
      ∃ k, levels = k + 1 ∧ ∃ entries : List SpelledEntry,
        v = .map (entries.map SpelledEntry.entry) ∧ entries.length = length ∧
        (∀ e ∈ entries, e.Encoded k) ∧ bs = entries.flatMap SpelledEntry.bytes ++ rest := by
  constructor
  · intro h
    unfold takeMap at h
    split at h
    · cases h
    obtain ⟨k, rfl, reads⟩ := below
    split at h
    · obtain ⟨⟨xs, left⟩, repeated, eq⟩ := bind_eq_ok.mp h
      obtain ⟨entries, rfl, len, all, rfl⟩ := (repeatStep_eq_ok (reads_entryStep reads)).mp repeated
      cases eq
      exact ⟨k, rfl, entries, rfl, len, all, rfl⟩
    · cases h
  · rintro ⟨k, rfl, entries, rfl, rfl, all, rfl⟩
    cases inner with
    | none => cases below
    | some value =>
      obtain ⟨_, eq, reads⟩ := below
      cases eq
      -- Each entry takes two bytes, so the early check lets the map pass.
      have enough := length_flatMap_ge SpelledEntry.bytes 2 entries fun e he => (all e he).length_ge
      rw [takeMap]
      dsimp only
      rw [if_pos (by rw [Bytes.hasAtLeast_iff, List.length_append]; omega),
        (repeatStep_eq_ok (reads_entryStep reads)).mpr ⟨entries, rfl, rfl, all, rfl⟩, bind_ok]
      rfl

end Inside

/-! ## First bytes -/

/-- The first byte in which a head stands. -/
def Head.standsIn (marker : UInt8) : Head → Bool
  | .nil => marker == 0xc0
  | .bool b => marker == if b then 0xc3 else 0xc2
  | .smallUint n => decide (n.toNat < Forms.uint.small) && marker == n
  | .smallInt n => decide (0xe0 ≤ n) && marker == n
  | .uint width => Forms.uint.wide.contains (marker, width)
  | .int width => intMarkers.contains (marker, width)
  | .smallStr n => decide (n < Forms.str.small) && marker == Forms.str.base + UInt8.ofNat n
  | .str width => Forms.str.wide.contains (marker, width)
  | .bin width => Forms.bin.wide.contains (marker, width)
  | .smallArray n => decide (n < Forms.array.small) && marker == Forms.array.base + UInt8.ofNat n
  | .array width => Forms.array.wide.contains (marker, width)
  | .smallMap n => decide (n < Forms.map.small) && marker == Forms.map.base + UInt8.ofNat n
  | .map width => Forms.map.wide.contains (marker, width)
  | .unsupported => true

theorem and_beq_iff {p : Prop} [Decidable p] {b c : UInt8} :
    (decide p && b == c) = true ↔ p ∧ b = c := by
  simp

theorem standsIn_ofByte (marker : UInt8) : (Head.ofByte marker).standsIn marker = true := by
  have all : ∀ n < 256, (Head.ofByte (UInt8.ofNat n)).standsIn (UInt8.ofNat n) = true := by
    decide +kernel
  have := all marker.toNat marker.toNat_lt
  rwa [UInt8.ofNat_toNat] at this

theorem ofByte_wide :
    (∀ m ∈ Forms.uint.wide, Head.ofByte m.1 = .uint m.2) ∧
    (∀ m ∈ Forms.str.wide, Head.ofByte m.1 = .str m.2) ∧
    (∀ m ∈ Forms.bin.wide, Head.ofByte m.1 = .bin m.2) ∧
    (∀ m ∈ Forms.array.wide, Head.ofByte m.1 = .array m.2) ∧
    (∀ m ∈ Forms.map.wide, Head.ofByte m.1 = .map m.2) ∧
    ∀ m ∈ intMarkers, Head.ofByte m.1 = .int m.2 := by
  decide

section Header

variable {α : Type} {f : Forms} {n : Nat} {header : Bytes}

/-- What is read after a number in any of its forms. -/
theorem step_of_spells (step : Bytes → Except Error (α × Bytes))
    (next : Nat → Bytes → Except Error (α × Bytes))
    (small : ∀ n < f.small, ∀ bs, step ((f.base + UInt8.ofNat n) :: bs) = next n bs)
    (wide : ∀ m ∈ f.wide, ∀ bs, step (m.1 :: bs) =
      takeNat m.2 bs >>= fun (n, rest) => next n rest)
    (form : f.Spells n header) (rest : Bytes) : step (header ++ rest) = next n rest := by
  rcases form with ⟨low, rfl⟩ | ⟨m, known, fits, rfl⟩
  · exact small n low rest
  · exact (wide m known _).trans (takeNat_bind fits rest next)

/-- A number after the first byte was spelled by both. -/
theorem spells_of_takeNat_bind (next : Nat → Bytes → Except Error (α × Bytes)) {marker : UInt8}
    {width : Nat} {bs rest : Bytes} {a : α} (known : f.wide.contains (marker, width) = true)
    (h : (takeNat width bs >>= fun (n, rest) => next n rest) = .ok (a, rest)) :
    ∃ n header left, f.Spells n header ∧ marker :: bs = header ++ left ∧
      next n left = .ok (a, rest) := by
  obtain ⟨⟨n, left⟩, number, later⟩ := bind_eq_ok.mp h
  obtain ⟨fits, rfl⟩ := takeNat_eq_ok.mp number
  exact ⟨n, _, left, .inr ⟨_, List.contains_iff_mem.mp known, fits, rfl⟩, rfl, later⟩

end Header

/-! ## Signed integers -/

theorem capacity_even {marker : UInt8} {width : Nat} (known : (marker, width) ∈ intMarkers) :
    2 * (Bytes.capacity width / 2) = Bytes.capacity width := by
  have all : ∀ m ∈ intMarkers, 2 * (Bytes.capacity m.2 / 2) = Bytes.capacity m.2 := by decide
  exact all _ known

/-- Two's complement stands for the number nearest to zero with these digits. -/
theorem signed_eq_ofInt {width n : Nat}
    (even : 2 * (Bytes.capacity width / 2) = Bytes.capacity width) (fits : n < Bytes.capacity width) :
    signed width n = .ofInt ((n : Int).bmod (Bytes.capacity width)) := by
  unfold signed Value.ofInt
  rw [Int.bmod_def, Int.emod_eq_of_lt (by omega) (by omega)]
  split
  · rw [if_pos (by omega), if_pos (by omega), Int.toNat_natCast]
  · rw [if_neg (by omega), if_neg (by omega)]

/-! ## Whatever is read is spelled -/

section Sound

variable {levels n : Nat} {inner : Inner} {header bs rest : Bytes} {v : Value}

theorem encodes_of_takeStr (form : Forms.str.Spells n header) (h : takeStr n bs = .ok (v, rest)) :
    ∃ front, Encodes levels v front ∧ header ++ bs = front ++ rest := by
  obtain ⟨s, rfl, rfl, rfl⟩ := takeStr_eq_ok.mp h
  exact ⟨_, .str form, (List.append_assoc ..).symm⟩

theorem encodes_of_take (form : Forms.bin.Spells n header)
    (h : (take n bs >>= fun (raw, rest) => .ok (.bin raw, rest)) = .ok (v, rest)) :
    ∃ front, Encodes levels v front ∧ header ++ bs = front ++ rest := by
  obtain ⟨⟨raw, left⟩, taken, eq⟩ := bind_eq_ok.mp h
  cases eq
  obtain ⟨rfl, rfl⟩ := take_eq_ok.mp taken
  exact ⟨_, .bin form, (List.append_assoc ..).symm⟩

theorem encodes_of_takeArray (below : InnerReads levels inner)
    (form : Forms.array.Spells n header) (h : takeArray inner n bs = .ok (v, rest)) :
    ∃ front, Encodes levels v front ∧ header ++ bs = front ++ rest := by
  obtain ⟨k, rfl, items, rfl, rfl, all, rfl⟩ := (takeArray_eq_ok below).mp h
  exact ⟨_, .array form all, (List.append_assoc ..).symm⟩

theorem encodes_of_takeMap (below : InnerReads levels inner)
    (form : Forms.map.Spells n header) (h : takeMap inner n bs = .ok (v, rest)) :
    ∃ front, Encodes levels v front ∧ header ++ bs = front ++ rest := by
  obtain ⟨k, rfl, entries, rfl, rfl, all, rfl⟩ := (takeMap_eq_ok below).mp h
  refine ⟨_, .map form ?_ ?_, (List.append_assoc ..).symm⟩
  · exact fun e he => (all e he).1
  · exact fun e he => (all e he).2

/-- The digits of a signed integer in two's complement. -/
theorem encodes_signed {marker : UInt8} {width : Nat} (known : (marker, width) ∈ intMarkers)
    (fits : n < Bytes.capacity width) :
    Encodes levels (signed width n) (marker :: Bytes.toBigEndian width n) := by
  have even := capacity_even known
  -- The number nearest to zero is in range, and these are its digits.
  have low := Int.le_bmod (x := n) (m := Bytes.capacity width) (by omega)
  have high := Int.bmod_lt (x := n) (m := Bytes.capacity width) (by omega)
  have spelled := @Encodes.int levels ((n : Int).bmod (Bytes.capacity width)) _ _ known
    (by omega) (by omega)
  rw [Int.bmod_emod, Int.emod_eq_of_lt (by omega) (by omega), Int.toNat_natCast] at spelled
  rwa [signed_eq_ofInt even fits]

theorem encodes_smallInt {b : UInt8} (low : 0xe0 ≤ b) :
    Encodes levels (signed 1 b.toNat) [b] := by
  have bound := b.toNat_lt
  have low : 0xe0 ≤ b.toNat := UInt8.le_iff_toNat_le.mp low
  have spelled := @Encodes.smallInt levels ((b.toNat : Int) - 256) (by omega) (by omega)
  rw [Int.sub_add_cancel, Int.toNat_natCast, UInt8.ofNat_toNat] at spelled
  have value : ((b.toNat : Int)).bmod (Bytes.capacity 1) = b.toNat - 256 := by
    rw [Int.bmod_def, Int.emod_eq_of_lt (by omega) (by simp [Bytes.capacity]; omega), if_neg]
    · rfl
    · simp [Bytes.capacity]; omega
  rwa [signed_eq_ofInt rfl (by simpa [Bytes.capacity] using bound), value]

/-- No form of an integer has more than 64 bits. -/
theorem toNat_of_spells (form : Forms.uint.Spells n header) : (UInt64.ofNat n).toNat = n := by
  have small : n < Bytes.capacity 8 := by
    rcases form with ⟨low, -⟩ | ⟨m, known, fits, -⟩
    · exact Nat.lt_trans low (by decide)
    · have widths : ∀ m ∈ Forms.uint.wide, m.2 ≤ 8 := by decide
      exact Nat.lt_of_lt_of_le fits (capacity_mono (widths m known))
  exact UInt64.toNat_ofNat_of_lt' small

theorem encodes_of_valueStep (below : InnerReads levels inner)
    (h : valueStep inner bs = .ok (v, rest)) :
    ∃ front, Encodes levels v front ∧ bs = front ++ rest := by
  cases bs with
  | nil => cases h
  | cons marker bs =>
    have stands := standsIn_ofByte marker
    simp only [valueStep] at h
    -- From here on the head says which byte it came from.
    generalize Head.ofByte marker = head at h stands
    cases head with
    | nil =>
      obtain rfl := eq_of_beq stands
      cases h
      exact ⟨_, .nil, rfl⟩
    | bool b =>
      obtain rfl := eq_of_beq stands
      cases h
      exact ⟨_, .bool b, rfl⟩
    | smallUint n =>
      obtain ⟨low, rfl⟩ := and_beq_iff.mp stands
      cases h
      have value : (UInt64.ofNat marker.toNat).toNat = marker.toNat :=
        UInt64.toNat_ofNat_of_lt' (Nat.lt_trans low (by decide))
      refine ⟨[marker], .uint (.inl ?_), rfl⟩
      rw [value, UInt8.ofNat_toNat]
      exact ⟨low, congrArg (· :: []) (UInt8.zero_add marker).symm⟩
    | smallInt n =>
      obtain ⟨low, rfl⟩ := and_beq_iff.mp stands
      cases h
      exact ⟨_, encodes_smallInt low, rfl⟩
    | uint width =>
      obtain ⟨n, header, left, form, eq, later⟩ :=
        spells_of_takeNat_bind (fun n rest => .ok (Value.uint (UInt64.ofNat n), rest)) stands h
      cases later
      exact ⟨header, .uint (by rwa [toNat_of_spells form]), eq⟩
    | int width =>
      obtain ⟨⟨n, left⟩, number, eq⟩ := bind_eq_ok.mp h
      obtain ⟨fits, rfl⟩ := takeNat_eq_ok.mp number
      cases eq
      exact ⟨_, encodes_signed (List.contains_iff_mem.mp stands) fits, rfl⟩
    | smallStr n =>
      obtain ⟨low, rfl⟩ := and_beq_iff.mp stands
      exact encodes_of_takeStr (.inl ⟨low, rfl⟩) h
    | str width =>
      obtain ⟨n, header, left, form, eq, later⟩ := spells_of_takeNat_bind takeStr stands h
      exact eq ▸ encodes_of_takeStr form later
    | bin width =>
      obtain ⟨n, header, left, form, eq, later⟩ := spells_of_takeNat_bind
        (fun n rest => take n rest >>= fun (raw, rest) => .ok (Value.bin raw, rest)) stands h
      exact eq ▸ encodes_of_take form later
    | smallArray n =>
      obtain ⟨low, rfl⟩ := and_beq_iff.mp stands
      exact encodes_of_takeArray below (.inl ⟨low, rfl⟩) h
    | array width =>
      obtain ⟨n, header, left, form, eq, later⟩ := spells_of_takeNat_bind (takeArray inner) stands h
      exact eq ▸ encodes_of_takeArray below form later
    | smallMap n =>
      obtain ⟨low, rfl⟩ := and_beq_iff.mp stands
      exact encodes_of_takeMap below (.inl ⟨low, rfl⟩) h
    | map width =>
      obtain ⟨n, header, left, form, eq, later⟩ := spells_of_takeNat_bind (takeMap inner) stands h
      exact eq ▸ encodes_of_takeMap below form later
    | unsupported => cases h

end Sound

/-! ## Whatever is spelled is read -/

section Complete

variable {levels n : Nat} {inner : Inner} {header rest : Bytes}

theorem valueStep_uintForm (form : Forms.uint.Spells n header) :
    valueStep inner (header ++ rest) = .ok (.uint (UInt64.ofNat n), rest) := by
  refine step_of_spells (valueStep inner) (fun n rest => .ok (.uint (UInt64.ofNat n), rest))
    (fun n low bs => ?_) (fun m known bs => ?_) form rest
  · have low : n < 128 := low
    have first : Forms.uint.base + UInt8.ofNat n = UInt8.ofNat n := UInt8.zero_add _
    rw [first]
    simp only [valueStep, ofByte_smallUint n low]
    rw [UInt8.toNat_ofNat', Nat.mod_eq_of_lt (by omega)]
  · simp only [valueStep, ofByte_wide.1 m known]

theorem valueStep_strForm (form : Forms.str.Spells n header) :
    valueStep inner (header ++ rest) = takeStr n rest := by
  refine step_of_spells (valueStep inner) takeStr (fun n low bs => ?_)
    (fun m known bs => ?_) form rest
  · simp only [valueStep, Forms.str, ofByte_smallStr n low]
  · simp only [valueStep, ofByte_wide.2.1 m known]

theorem valueStep_binForm (form : Forms.bin.Spells n header) :
    valueStep inner (header ++ rest) =
      (take n rest >>= fun (raw, rest) => .ok (.bin raw, rest)) := by
  refine step_of_spells (valueStep inner)
    (fun n rest => take n rest >>= fun (raw, rest) => .ok (.bin raw, rest))
    (fun n low bs => absurd low (Nat.not_lt_zero n)) (fun m known bs => ?_) form rest
  simp only [valueStep, ofByte_wide.2.2.1 m known]

theorem valueStep_arrayForm (form : Forms.array.Spells n header) :
    valueStep inner (header ++ rest) = takeArray inner n rest := by
  refine step_of_spells (valueStep inner) (takeArray inner) (fun n low bs => ?_)
    (fun m known bs => ?_) form rest
  · simp only [valueStep, Forms.array, ofByte_smallArray n low]
  · simp only [valueStep, ofByte_wide.2.2.2.1 m known]

theorem valueStep_mapForm (form : Forms.map.Spells n header) :
    valueStep inner (header ++ rest) = takeMap inner n rest := by
  refine step_of_spells (valueStep inner) (takeMap inner) (fun n low bs => ?_)
    (fun m known bs => ?_) form rest
  · simp only [valueStep, Forms.map, ofByte_smallMap n low]
  · simp only [valueStep, ofByte_wide.2.2.2.2.1 m known]

theorem signed_emod {width : Nat} {n : Int}
    (even : 2 * (Bytes.capacity width / 2) = Bytes.capacity width)
    (low : -(Bytes.capacity width / 2 : Nat) ≤ n) (high : n < (Bytes.capacity width / 2 : Nat)) :
    signed width (n % Bytes.capacity width).toNat = .ofInt n := by
  have pos := Bytes.capacity_pos width
  have digits := Int.emod_lt_of_pos n (b := Bytes.capacity width) (by omega)
  have nonneg := Int.emod_nonneg n (b := Bytes.capacity width) (by omega)
  rw [signed_eq_ofInt even (by omega), Int.toNat_of_nonneg nonneg, Int.emod_bmod,
    Int.bmod_eq_of_le (by omega) (by omega)]

theorem valueStep_of_encodes {v : Value} {bs : Bytes} (below : InnerReads levels inner)
    (h : Encodes levels v bs) : valueStep inner (bs ++ rest) = .ok (v, rest) := by
  cases h with
  | nil => rfl
  | bool b => cases b <;> rfl
  | uint form => rw [valueStep_uintForm form, UInt64.ofNat_toNat]
  | @smallInt _ n low negative =>
    -- The number is counted from -32, which stands in the byte `0xe0`.
    obtain ⟨m, rfl⟩ : ∃ m : Nat, n = m - 32 := ⟨(n + 32).toNat, by omega⟩
    have first : UInt8.ofNat ((m : Int) - 32 + 256).toNat = UInt8.ofNat (0xe0 + m) := by
      congr 1
      omega
    have digits : (UInt8.ofNat (0xe0 + m)).toNat =
        (((m : Int) - 32) % (Bytes.capacity 1 : Nat)).toNat := by
      rw [UInt8.toNat_ofNat']
      simp only [Bytes.capacity]
      omega
    rw [first]
    show valueStep inner (UInt8.ofNat (0xe0 + m) :: rest) = _
    simp only [valueStep, ofByte_smallInt m (by omega)]
    rw [digits, signed_emod rfl]
    · simp only [Bytes.capacity]
      omega
    · simp only [Bytes.capacity]
      omega
  | @int _ n marker width known low high =>
    have cap := Bytes.capacity_pos width
    have pos := Int.emod_lt_of_pos n (b := Bytes.capacity width) (by omega)
    show valueStep inner (marker :: (_ ++ rest)) = _
    simp only [valueStep, ofByte_wide.2.2.2.2.2 _ known]
    rw [takeNat_toBigEndian, bind_ok, Nat.mod_eq_of_lt (by omega)]
    dsimp only
    rw [signed_emod (capacity_even known) low high]
  | str form => rw [List.append_assoc, valueStep_strForm form, takeStr_append]
  | bin form =>
    rw [List.append_assoc, valueStep_binForm form, take_append]
    rfl
  | array form inside =>
    rw [List.append_assoc, valueStep_arrayForm form]
    exact (takeArray_eq_ok below).mpr ⟨_, rfl, _, rfl, rfl, inside, rfl⟩
  | map form keys inside =>
    rw [List.append_assoc, valueStep_mapForm form]
    exact (takeMap_eq_ok below).mpr ⟨_, rfl, _, rfl, rfl, fun e he => ⟨keys e he, inside e he⟩, rfl⟩

end Complete

/-! ## Whole values -/

theorem reads_valueStep {levels : Nat} {inner : Inner} (below : InnerReads levels inner) :
    Reads (valueStep inner) (Encodes levels) := by
  intro bs v rest
  constructor
  · exact encodes_of_valueStep below
  · rintro ⟨front, spelled, rfl⟩
    exact valueStep_of_encodes below spelled

theorem reads_nestedValue (levels : Nat) : Reads (nestedValue levels) (Encodes levels) := by
  -- Each limit reads with the one below it inside its containers, and zero has no containers.
  induction levels with
  | zero => exact @reads_valueStep _ none rfl
  | succ levels ih => exact @reads_valueStep _ (some (nestedValue levels)) ⟨levels, rfl, ih⟩

/-- The bytes hold a value exactly if they spell it, from the first to the last of them. -/
theorem parse_eq_ok_iff (bs : Bytes) (v : Value) :
    parse bs = .ok v ↔ Encodes Limits.nesting v bs := by
  rw [parse, bind_eq_ok]
  constructor
  · rintro ⟨⟨v', rest⟩, read, whole⟩
    obtain ⟨front, spelled, rfl⟩ := (reads_nestedValue _ _ _ _).mp read
    dsimp only at whole
    split at whole
    · rename_i none
      cases whole
      rwa [List.isEmpty_iff.mp none, List.append_nil]
    · cases whole
  · intro spelled
    exact ⟨(v, []), (reads_nestedValue _ _ _ _).mpr ⟨bs, spelled, (List.append_nil bs).symm⟩, rfl⟩

end LedgerCodec.Wire
