import LedgerCodec.Wire.Writer
import LedgerCodec.Proofs.Wire.Fits
/-!
# Wire values are read back

A value that fits is read back from its bytes, whatever follows them:
`nestedValue_write`, by induction on the derivation of `Fits`. On the way stand
the bytes of each sort of value, their least lengths, and what is read after
each header of the writer's form.
-/

namespace LedgerCodec.Wire

/-! ## The bytes of containers -/

namespace Value

mutual

theorem emit_append (v : Value) (written : Bytes) : v.emit written = v.emit [] ++ written := by
  cases v with
  | nil => rfl
  | array items =>
    rw [emit, emitItems_append, emit, emitItems_append items ((arrayHeader _).reverseAux [])]
    simp [List.reverseAux_eq]
  | map entries =>
    rw [emit, emitEntries_append, emit, emitEntries_append entries ((mapHeader _).reverseAux [])]
    simp [List.reverseAux_eq]
  | _ => simp [emit, List.reverseAux_eq]

theorem emitItems_append (items : List Value) (written : Bytes) :
    emitItems items written = emitItems items [] ++ written := by
  cases items with
  | nil => rfl
  | cons item items =>
    rw [emitItems, emitItems_append, emit_append, emitItems, emitItems_append items (item.emit [])]
    simp

theorem emitEntries_append (entries : List (String × Value)) (written : Bytes) :
    emitEntries entries written = emitEntries entries [] ++ written := by
  cases entries with
  | nil => rfl
  | cons entry entries =>
    rw [emitEntries, emitEntries_append, emitEntry_append, emitEntries,
      emitEntries_append entries (emitEntry entry [])]
    simp

theorem emitEntry_append (entry : String × Value) (written : Bytes) :
    emitEntry entry written = emitEntry entry [] ++ written := by
  cases entry with
  | mk key v =>
    rw [emitEntry, emit_append, emitEntry, emit_append v ((writeStr key).reverseAux [])]
    simp [List.reverseAux_eq]

end

/-- The bytes of a key and its value. -/
def writeEntry (entry : String × Value) : Bytes :=
  writeStr entry.1 ++ entry.2.write

theorem emitItems_reverse (items : List Value) :
    (emitItems items []).reverse = items.flatMap write := by
  induction items with
  | nil => rfl
  | cons item items ih =>
    rw [emitItems, emitItems_append, List.reverse_append, ih]
    rfl

theorem emitEntry_reverse (entry : String × Value) :
    (emitEntry entry []).reverse = writeEntry entry := by
  cases entry with
  | mk key v =>
    rw [emitEntry, emit_append]
    simp [writeEntry, write, List.reverseAux_eq]

theorem emitEntries_reverse (entries : List (String × Value)) :
    (emitEntries entries []).reverse = entries.flatMap writeEntry := by
  induction entries with
  | nil => rfl
  | cons entry entries ih =>
    rw [emitEntries, emitEntries_append, List.reverse_append, ih, emitEntry_reverse]
    rfl

theorem write_array (items : List Value) :
    (array items).write = arrayHeader items.length ++ items.flatMap write := by
  rw [write, emit, emitItems_append, List.reverse_append, emitItems_reverse]
  simp [List.reverseAux_eq]

theorem write_map (entries : List (String × Value)) :
    (map entries).write = mapHeader entries.length ++ entries.flatMap writeEntry := by
  rw [write, emit, emitEntries_append, List.reverse_append, emitEntries_reverse]
  simp [List.reverseAux_eq]

theorem write_str (s : String) : (str s).write = writeStr s := by
  simp [write, emit, List.reverseAux_eq]

theorem write_bin (bs : Bytes) : (bin bs).write = writeBin bs := by
  simp [write, emit, List.reverseAux_eq]

theorem write_uint (n : UInt64) : (uint n).write = writeUint n := by
  simp [write, emit, List.reverseAux_eq]

theorem write_int {n : Int64} (h : n < 0) : (int n).write = writeNegative n := by
  simp [write, emit, List.reverseAux_eq, h]

theorem write_bool (b : Bool) : (bool b).write = writeBool b := by
  simp [write, emit, List.reverseAux_eq]

end Value

/-! ## Lengths -/

theorem length_writeUint_pos (n : UInt64) : 0 < (writeUint n).length := by
  unfold writeUint
  dsimp only
  split <;> (try split) <;> (try split) <;> (try split) <;> simp

theorem length_writeNegative_pos (n : Int64) : 0 < (writeNegative n).length := by
  unfold writeNegative
  dsimp only
  split <;> (try split) <;> (try split) <;> (try split) <;> simp

theorem length_strHeader_pos (n : Nat) : 0 < (strHeader n).length := by
  unfold strHeader
  split <;> (try split) <;> (try split) <;> simp

theorem length_binHeader_pos (n : Nat) : 0 < (binHeader n).length := by
  unfold binHeader
  split <;> (try split) <;> simp

theorem length_arrayHeader_pos (n : Nat) : 0 < (arrayHeader n).length := by
  unfold arrayHeader
  split <;> (try split) <;> simp

theorem length_mapHeader_pos (n : Nat) : 0 < (mapHeader n).length := by
  unfold mapHeader
  split <;> (try split) <;> simp

theorem length_writeStr_pos (s : String) : 0 < (writeStr s).length := by
  have := length_strHeader_pos (utf8 s).length
  simp only [writeStr, List.length_append]
  omega

/-- Every value takes a byte at least. -/
theorem length_write_pos (v : Value) : 0 < v.write.length := by
  cases v with
  | nil => decide
  | bool b => simp [Value.write_bool, writeBool]
  | uint n => exact Value.write_uint n ▸ length_writeUint_pos n
  | int n =>
    by_cases h : n < 0
    · exact Value.write_int h ▸ length_writeNegative_pos n
    -- Numbers from zero on are never held as signed, and would be written as unsigned.
    · have := length_writeUint_pos n.toUInt64
      simpa [Value.write, Value.emit, h, List.reverseAux_eq] using this
  | str s => exact Value.write_str s ▸ length_writeStr_pos s
  | bin bs =>
    have := length_binHeader_pos bs.length
    rw [Value.write_bin, writeBin, List.length_append]
    omega
  | array items =>
    have := length_arrayHeader_pos items.length
    rw [Value.write_array, List.length_append]
    omega
  | map entries =>
    have := length_mapHeader_pos entries.length
    rw [Value.write_map, List.length_append]
    omega

/-- Every entry takes two bytes at least. -/
theorem length_writeEntry_ge (entry : String × Value) : 2 ≤ (Value.writeEntry entry).length := by
  have := length_writeStr_pos entry.1
  have := length_write_pos entry.2
  rw [Value.writeEntry, List.length_append]
  omega

theorem length_flatMap_ge {α : Type} (write : α → Bytes) (k : Nat) (xs : List α)
    (h : ∀ x ∈ xs, k ≤ (write x).length) : k * xs.length ≤ (xs.flatMap write).length := by
  induction xs with
  | nil => simp
  | cons x xs ih =>
    have first := h x (by simp)
    have rest := ih fun y hy => h y (by simp [hy])
    rw [List.flatMap_cons, List.length_append, List.length_cons, Nat.mul_add, Nat.mul_one]
    omega

/-! ## Reading the parts of a value -/

theorem take_append (bs rest : Bytes) : take bs.length (bs ++ rest) = .ok (bs, rest) := by
  have enough : (bs ++ rest).hasAtLeast bs.length = true := by simp [Bytes.hasAtLeast_iff]
  simp [take, enough]

theorem takeNat_toBigEndian (width n : Nat) (rest : Bytes) :
    takeNat width (Bytes.toBigEndian width n ++ rest) = .ok (n % Bytes.capacity width, rest) := by
  have taken := take_append (Bytes.toBigEndian width n) rest
  rw [Bytes.length_toBigEndian] at taken
  rw [takeNat, taken, bind_ok]
  dsimp only
  rw [Bytes.ofBigEndian_toBigEndian]

theorem takeStr_append (s : String) (rest : Bytes) :
    takeStr (utf8 s).length (utf8 s ++ rest) = .ok (.str s, rest) := by
  rw [takeStr, take_append, bind_ok]
  simp

theorem repeatStep_flatMap {α : Type} (step : Bytes → Except Error (α × Bytes)) (write : α → Bytes)
    (xs : List α) (h : ∀ x ∈ xs, ∀ rest, step (write x ++ rest) = .ok (x, rest)) :
    ∀ (read : List α) (rest : Bytes),
      repeatStep step xs.length read (xs.flatMap write ++ rest) = .ok (read.reverse ++ xs, rest) := by
  induction xs with
  | nil => intro read rest; simp [repeatStep]
  | cons x xs ih =>
    intro read rest
    rw [List.flatMap_cons, List.append_assoc, List.length_cons, repeatStep, h x (by simp), bind_ok]
    have later := ih (fun y hy => h y (by simp [hy])) (x :: read) rest
    simpa using later

theorem entryStep_writeEntry (value : Bytes → Except Error (Value × Bytes)) (entry : String × Value)
    (hkey : ∀ rest, value (writeStr entry.1 ++ rest) = .ok (.str entry.1, rest))
    (hvalue : ∀ rest, value (entry.2.write ++ rest) = .ok (entry.2, rest)) (rest : Bytes) :
    entryStep value (Value.writeEntry entry ++ rest) = .ok (entry, rest) := by
  rw [Value.writeEntry, List.append_assoc, entryStep, hkey, bind_ok]
  dsimp only
  rw [hvalue, bind_ok]

/-! ## Reading headers -/

theorem ofByte_smallUint : ∀ n < 128, Head.ofByte (UInt8.ofNat n) = .smallUint (UInt8.ofNat n) := by
  decide

theorem ofByte_smallStr : ∀ n < 32, Head.ofByte (0xa0 + UInt8.ofNat n) = .smallStr n := by decide

theorem ofByte_smallArray : ∀ n < 16, Head.ofByte (0x90 + UInt8.ofNat n) = .smallArray n := by
  decide

theorem ofByte_smallInt :
    ∀ n < 32, Head.ofByte (UInt8.ofNat (0xe0 + n)) = .smallInt (UInt8.ofNat (0xe0 + n)) := by decide

theorem ofByte_smallMap : ∀ n < 16, Head.ofByte (0x80 + UInt8.ofNat n) = .smallMap n := by decide

/-- A number in its own width, followed by what is read once it is known. -/
theorem takeNat_bind {α : Type} {width n : Nat} (h : n < Bytes.capacity width) (rest : Bytes)
    (next : Nat → Bytes → Except Error α) :
    (takeNat width (Bytes.toBigEndian width n ++ rest) >>= fun (m, rest) => next m rest) =
      next n rest := by
  rw [takeNat_toBigEndian, bind_ok, Nat.mod_eq_of_lt h]

section Headers

variable (inner : Inner) (rest : Bytes)

theorem valueStep_writeUint (n : UInt64) :
    valueStep inner (writeUint n ++ rest) = .ok (.uint n, rest) := by
  have wide (width : Nat) (h : n.toNat < Bytes.capacity width) :
      (takeNat width (Bytes.toBigEndian width n.toNat ++ rest) >>= fun (m, rest) =>
        .ok (Value.uint (UInt64.ofNat m), rest)) = .ok (.uint n, rest) := by
    refine (takeNat_bind h rest fun m rest => .ok (Value.uint (UInt64.ofNat m), rest)).trans ?_
    rw [UInt64.ofNat_toNat]
  have bound := n.toNat_lt
  unfold writeUint
  dsimp only
  split
  · rename_i small
    show valueStep inner (UInt8.ofNat n.toNat :: rest) = _
    simp only [valueStep, ofByte_smallUint n.toNat small]
    rw [UInt8.toNat_ofNat', Nat.mod_eq_of_lt (by omega), UInt64.ofNat_toNat]
  split
  · exact wide 1 (by simpa [Bytes.capacity] using ‹_›)
  split
  · exact wide 2 (by simpa [Bytes.capacity] using ‹_›)
  split
  · exact wide 4 (by simpa [Bytes.capacity] using ‹_›)
  · exact wide 8 (by simpa [Bytes.capacity] using bound)

theorem valueStep_strHeader {n : Nat} (h : n < lengthBound) :
    valueStep inner (strHeader n ++ rest) = takeStr n rest := by
  have wide (width : Nat) (h : n < Bytes.capacity width) := takeNat_bind h rest takeStr
  unfold strHeader
  split
  · rename_i small
    show valueStep inner ((0xa0 + UInt8.ofNat n) :: rest) = _
    simp only [valueStep, ofByte_smallStr n small]
  split
  · exact wide 1 (by simpa [Bytes.capacity] using ‹_›)
  split
  · exact wide 2 (by simpa [Bytes.capacity] using ‹_›)
  · exact wide 4 h

theorem valueStep_binHeader {n : Nat} (h : n < lengthBound) :
    valueStep inner (binHeader n ++ rest) =
      (take n rest >>= fun (raw, rest) => .ok (.bin raw, rest)) := by
  have wide (width : Nat) (h : n < Bytes.capacity width) :=
    takeNat_bind h rest fun n rest => take n rest >>= fun (raw, rest) => .ok (Value.bin raw, rest)
  unfold binHeader
  split
  · exact wide 1 (by simpa [Bytes.capacity] using ‹_›)
  split
  · exact wide 2 (by simpa [Bytes.capacity] using ‹_›)
  · exact wide 4 h

theorem valueStep_arrayHeader {n : Nat} (h : n < lengthBound) :
    valueStep inner (arrayHeader n ++ rest) = takeArray inner n rest := by
  have wide (width : Nat) (h : n < Bytes.capacity width) := takeNat_bind h rest (takeArray inner)
  unfold arrayHeader
  split
  · rename_i small
    show valueStep inner ((0x90 + UInt8.ofNat n) :: rest) = _
    simp only [valueStep, ofByte_smallArray n small]
  split
  · exact wide 2 (by simpa [Bytes.capacity] using ‹_›)
  · exact wide 4 h

theorem valueStep_mapHeader {n : Nat} (h : n < lengthBound) :
    valueStep inner (mapHeader n ++ rest) = takeMap inner n rest := by
  have wide (width : Nat) (h : n < Bytes.capacity width) := takeNat_bind h rest (takeMap inner)
  unfold mapHeader
  split
  · rename_i small
    show valueStep inner ((0x80 + UInt8.ofNat n) :: rest) = _
    simp only [valueStep, ofByte_smallMap n small]
  split
  · exact wide 2 (by simpa [Bytes.capacity] using ‹_›)
  · exact wide 4 h

theorem valueStep_writeStr {s : String} (h : (utf8 s).length < lengthBound) :
    valueStep inner (writeStr s ++ rest) = .ok (.str s, rest) := by
  rw [writeStr, List.append_assoc, valueStep_strHeader inner _ h, takeStr_append]

theorem valueStep_writeBin {bs : Bytes} (h : bs.length < lengthBound) :
    valueStep inner (writeBin bs ++ rest) = .ok (.bin bs, rest) := by
  rw [writeBin, List.append_assoc, valueStep_binHeader inner _ h, take_append]
  rfl

/-- Two's complement of a width gives back a negative number of that width. -/
theorem signed_mod {width k : Nat} {n : Int64} (hw : Bytes.capacity width = 2 * k)
    (dvd : (Bytes.capacity width : Int) ∣ 0x10000000000000000) (neg : n.toInt < 0)
    (low : -k ≤ n.toInt) :
    signed width ((n.toInt % 0x10000000000000000).toNat % Bytes.capacity width) = .int n := by
  have value : (((n.toInt % 0x10000000000000000).toNat % Bytes.capacity width : Nat) : Int) =
      n.toInt + Bytes.capacity width := by
    rw [Int.natCast_emod, Int.toNat_of_nonneg (Int.emod_nonneg _ (by decide)),
      Int.emod_emod_of_dvd _ dvd, ← Int.add_emod_right, Int.emod_eq_of_lt (by omega) (by omega)]
  have high : ¬ (n.toInt % 0x10000000000000000).toNat % Bytes.capacity width <
      Bytes.capacity width / 2 := by omega
  rw [signed, if_neg high, value, Int.add_sub_cancel, Int64.ofInt_toInt]

theorem valueStep_writeNegative {n : Int64} (neg : n < 0) :
    valueStep inner (writeNegative n ++ rest) = .ok (.int n, rest) := by
  have below : n.toInt < 0 := by simpa using Int64.lt_iff_toInt_lt.mp neg
  have wide (width k : Nat) (hw : Bytes.capacity width = 2 * k)
      (dvd : (Bytes.capacity width : Int) ∣ 0x10000000000000000) (low : -k ≤ n.toInt) :
      (takeNat width (Bytes.toBigEndian width (n.toInt % 0x10000000000000000).toNat ++ rest) >>=
        fun (m, rest) => .ok (signed width m, rest)) = .ok (.int n, rest) := by
    rw [takeNat_toBigEndian, bind_ok]
    dsimp only
    rw [signed_mod hw dvd below low]
  unfold writeNegative
  dsimp only
  split
  · rename_i small
    -- From -32 on, the low byte is the header itself.
    obtain ⟨m, hm⟩ : ∃ m : Nat, n.toInt = m - 32 := ⟨(n.toInt + 32).toNat, by omega⟩
    have last : UInt8.ofNat ((n.toInt % 0x10000000000000000).toNat / Bytes.capacity 0) =
        UInt8.ofNat (0xe0 + m) := by
      apply UInt8.toNat_inj.mp
      simp only [Bytes.capacity, Nat.div_one, UInt8.toNat_ofNat']
      omega
    have value := @signed_mod 1 0x80 n rfl (by decide) below (by omega)
    rw [Bytes.toBigEndian, Bytes.toBigEndian, last]
    show valueStep inner (UInt8.ofNat (0xe0 + m) :: rest) = _
    simp only [valueStep, ofByte_smallInt m (by omega)]
    rw [← value]
    congr 4
    simp only [UInt8.toNat_ofNat', Bytes.capacity]
    omega
  split
  · exact wide 1 0x80 rfl (by decide) (by omega)
  split
  · exact wide 2 0x8000 rfl (by decide) (by omega)
  split
  · exact wide 4 0x80000000 rfl (by decide) (by omega)
  · exact wide 8 0x8000000000000000 rfl (by decide) n.le_toInt

end Headers

/-! ## Whole values -/

theorem valueStep_write_array {inner : Bytes → Except Error (Value × Bytes)} {items : List Value}
    (short : items.length < lengthBound)
    (h : ∀ v ∈ items, ∀ rest, inner (v.write ++ rest) = .ok (v, rest)) (rest : Bytes) :
    valueStep (some inner) ((Value.array items).write ++ rest) = .ok (.array items, rest) := by
  -- Before the first item is read, there must be a byte for each.
  have enough := length_flatMap_ge Value.write 1 items fun v _ => length_write_pos v
  rw [Value.write_array, List.append_assoc, valueStep_arrayHeader _ _ short, takeArray]
  dsimp only
  rw [if_pos (by rw [Bytes.hasAtLeast_iff, List.length_append]; omega),
    repeatStep_flatMap inner Value.write items h, bind_ok]
  rfl

theorem valueStep_write_map {inner : Bytes → Except Error (Value × Bytes)}
    {entries : List (String × Value)} (short : entries.length < lengthBound)
    (hkey : ∀ e ∈ entries, ∀ rest, inner (writeStr e.1 ++ rest) = .ok (.str e.1, rest))
    (h : ∀ e ∈ entries, ∀ rest, inner (e.2.write ++ rest) = .ok (e.2, rest)) (rest : Bytes) :
    valueStep (some inner) ((Value.map entries).write ++ rest) = .ok (.map entries, rest) := by
  -- Before the first entry is read, there must be two bytes for each.
  have enough := length_flatMap_ge Value.writeEntry 2 entries fun e _ => length_writeEntry_ge e
  rw [Value.write_map, List.append_assoc, valueStep_mapHeader _ _ short, takeMap]
  dsimp only
  rw [if_pos (by rw [Bytes.hasAtLeast_iff, List.length_append]; omega),
    repeatStep_flatMap (entryStep inner) Value.writeEntry entries
      fun e he => entryStep_writeEntry inner e (hkey e he) (h e he), bind_ok]
  rfl

theorem nestedValue_eq (levels : Nat) : ∃ inner, nestedValue levels = valueStep inner := by
  cases levels with
  | zero => exact ⟨none, rfl⟩
  | succ levels => exact ⟨some (nestedValue levels), rfl⟩

/-- What fits is read back from its bytes, and what follows is left. -/
theorem nestedValue_write {levels : Nat} {v : Value} (h : Fits levels v) (rest : Bytes) :
    nestedValue levels (v.write ++ rest) = .ok (v, rest) := by
  -- Plain values are read alike on every level, and containers need one more below them.
  induction h generalizing rest with
  | @nil levels => obtain ⟨inner, e⟩ := nestedValue_eq levels; rw [e]; rfl
  | @bool levels b => obtain ⟨inner, e⟩ := nestedValue_eq levels; rw [e]; cases b <;> rfl
  | @uint levels n =>
    obtain ⟨inner, e⟩ := nestedValue_eq levels
    rw [e, Value.write_uint, valueStep_writeUint]
  | @int levels n negative =>
    obtain ⟨inner, e⟩ := nestedValue_eq levels
    rw [e, Value.write_int negative, valueStep_writeNegative _ _ negative]
  | @str levels s short =>
    obtain ⟨inner, e⟩ := nestedValue_eq levels
    rw [e, Value.write_str, valueStep_writeStr _ _ short]
  | @bin levels bs short =>
    obtain ⟨inner, e⟩ := nestedValue_eq levels
    rw [e, Value.write_bin, valueStep_writeBin _ _ short]
  | array short _ ih => exact valueStep_write_array short ih rest
  | @map levels entries short keys _ ih =>
    refine valueStep_write_map short (fun e he rest => ?_) ih rest
    obtain ⟨inner, eq⟩ := nestedValue_eq levels
    rw [eq, valueStep_writeStr _ _ (keys e he)]

/-- A value that fits is the one value that its bytes hold. -/
theorem parse_write {v : Value} (h : Fits Limits.nesting v) : parse v.write = .ok v := by
  have read := nestedValue_write h []
  rw [List.append_nil] at read
  rw [parse, read, bind_ok]
  rfl

end LedgerCodec.Wire
