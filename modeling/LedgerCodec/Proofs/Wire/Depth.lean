import LedgerCodec.Proofs.Wire.Grammar
/-!
# How deep containers nest

Bytes that hold a value are read with a lower limit on nesting as well, provided
that the value is no deeper than that. If it is deeper, reading stops at the first
container that is too deep, and says so: `nestedValue_of_parse`. A map around other
bytes takes one level, and leaves them the rest: `parse_singleton`.
-/

namespace LedgerCodec.Wire

/-! ## Depth -/

namespace Value

mutual

/-- How many containers stand inside one another. -/
def depth : Value → Nat
  | array items => itemsDepth items + 1
  | map entries => entriesDepth entries + 1
  | _ => 0
termination_by structural v => v

def itemsDepth : List Value → Nat
  | [] => 0
  | item :: items => max item.depth (itemsDepth items)
termination_by structural items => items

def entriesDepth : List (String × Value) → Nat
  | [] => 0
  | entry :: entries => max (entryDepth entry) (entriesDepth entries)
termination_by structural entries => entries

def entryDepth : String × Value → Nat
  | (_, v) => v.depth
termination_by structural entry => entry

end

theorem depth_array_le {items : List Value} {k : Nat} :
    (array items).depth ≤ k + 1 ↔ ∀ v ∈ items, v.depth ≤ k := by
  rw [depth, Nat.add_le_add_iff_right]
  induction items with
  | nil => simp [itemsDepth]
  | cons item items ih => rw [itemsDepth, Nat.max_le, ih, List.forall_mem_cons]

theorem depth_map_le {entries : List (String × Value)} {k : Nat} :
    (map entries).depth ≤ k + 1 ↔ ∀ e ∈ entries, e.2.depth ≤ k := by
  rw [depth, Nat.add_le_add_iff_right]
  induction entries with
  | nil => simp [entriesDepth]
  | cons entry entries ih =>
    obtain ⟨key, v⟩ := entry
    rw [entriesDepth, entryDepth, Nat.max_le, ih, List.forall_mem_cons]

/-- In a container that is too deep, something is. -/
theorem exists_deeper {α : Type} {inside : List α} {depthOf : α → Nat} {n k : Nat}
    (bound : n ≤ k + 1 ↔ ∀ a ∈ inside, depthOf a ≤ k) (deep : k + 1 < n) :
    ∃ a ∈ inside, k < depthOf a := by
  apply Classical.byContradiction
  intro none
  refine absurd (bound.mpr fun a ha => ?_) (Nat.not_le.mpr deep)
  exact Nat.not_lt.mp fun deeper => none ⟨a, ha, deeper⟩

theorem depth_ofInt (n : Int) : (ofInt n).depth = 0 := by
  unfold ofInt
  split <;> rfl

end Value

/-! ## Limits -/

theorem Encodes.depth_le {levels : Nat} {v : Value} {bs : Bytes} (h : Encodes levels v bs) :
    v.depth ≤ levels := by
  induction h with
  | smallInt | int => simp [Value.depth_ofInt]
  | array _ _ ih => exact Value.depth_array_le.mpr (List.forall_mem_map.mpr ih)
  | map _ _ _ _ ih => exact Value.depth_map_le.mpr (List.forall_mem_map.mpr ih)
  | _ => exact Nat.zero_le _

/-- The limit counts only as far as it bounds the depth. -/
theorem Encodes.of_depth_le {levels k : Nat} {v : Value} {bs : Bytes} (h : Encodes levels v bs)
    (shallow : v.depth ≤ k) : Encodes k v bs := by
  induction h generalizing k with
  | nil => exact .nil
  | bool b => exact .bool b
  | uint form => exact .uint form
  | smallInt low negative => exact .smallInt low negative
  | int known low high => exact .int known low high
  | str form => exact .str form
  | bin form => exact .bin form
  | array form _ ih =>
    obtain ⟨k, rfl⟩ : ∃ j, k = j + 1 := ⟨k - 1, by rw [Value.depth] at shallow; omega⟩
    have items := List.forall_mem_map.mp (Value.depth_array_le.mp shallow)
    exact .array form fun i hi => ih i hi (items i hi)
  | map form _ _ keys ih =>
    obtain ⟨k, rfl⟩ : ∃ j, k = j + 1 := ⟨k - 1, by rw [Value.depth] at shallow; omega⟩
    have entries := List.forall_mem_map.mp (Value.depth_map_le.mp shallow)
    exact .map form (fun e he => keys e he (Nat.zero_le k)) fun e he => ih e he (entries e he)

/-- A lower limit lets the same bytes through, unless the value is deeper. -/
theorem Encodes.iff_of_le {levels k : Nat} {v : Value} {bs : Bytes} (le : k ≤ levels) :
    Encodes k v bs ↔ Encodes levels v bs ∧ v.depth ≤ k := by
  constructor
  · intro h
    exact ⟨h.of_depth_le (Nat.le_trans h.depth_le le), h.depth_le⟩
  · rintro ⟨h, shallow⟩
    exact h.of_depth_le shallow

/-! ## Values that are too deep -/

/-- The error of containers that nest too deep. -/
abbrev tooDeep : Error := .nestingTooDeep Limits.nesting

section Repeat

variable {α β : Type} {step : Bytes → Except Error (α × Bytes)} {result : β → α}
  {bytes : β → Bytes}

/-- A run of steps ends with the error of the first that fails, if the others succeed or fail
alike. -/
theorem repeatStep_of_failing {e : Error} {parts : List β} {read : List α} {rest : Bytes}
    (outcome : ∀ b ∈ parts, (∀ rest, step (bytes b ++ rest) = .ok (result b, rest)) ∨
      ∀ rest, step (bytes b ++ rest) = .error e)
    (failing : ∃ b ∈ parts, ∀ rest, step (bytes b ++ rest) = .error e) :
    repeatStep step parts.length read (parts.flatMap bytes ++ rest) = .error e := by
  induction parts generalizing read with
  | nil =>
    obtain ⟨b, hb, -⟩ := failing
    cases hb
  | cons b parts ih =>
    obtain ⟨first, others⟩ := List.forall_mem_cons.mp outcome
    rw [List.length_cons, repeatStep, List.flatMap_cons, List.append_assoc]
    rcases first with succeeds | fails
    · rw [succeeds, bind_ok]
      refine ih others ?_
      obtain ⟨c, hc, fails⟩ := failing
      rcases List.mem_cons.mp hc with rfl | hc
      · cases (succeeds []).symm.trans (fails [])
      · exact ⟨c, hc, fails⟩
    · rw [fails, bind_error]

end Repeat

theorem nestedValue_of_encodes {levels k : Nat} {v : Value} {bs : Bytes} (h : Encodes levels v bs)
    (shallow : v.depth ≤ k) (rest : Bytes) : nestedValue k (bs ++ rest) = .ok (v, rest) :=
  (reads_nestedValue k _ _ _).mpr ⟨bs, h.of_depth_le shallow, rfl⟩

section Inside

variable {k : Nat} {items : List (Value × Bytes)} {entries : List SpelledEntry} {rest : Bytes}

/-- Of the items of a list, the first that is too deep ends the reading. -/
theorem takeArray_of_deep {levels : Nat} (inside : ∀ i ∈ items, Encodes levels i.1 i.2)
    (refused : ∀ i ∈ items, k < i.1.depth → ∀ rest, nestedValue k (i.2 ++ rest) = .error tooDeep)
    (deep : ∃ i ∈ items, k < i.1.depth) :
    takeArray (some (nestedValue k)) items.length (items.flatMap Prod.snd ++ rest) =
      .error tooDeep := by
  have enough := length_flatMap_ge Prod.snd 1 items fun i hi => (inside i hi).length_pos
  have outcome : ∀ i ∈ items,
      (∀ rest, nestedValue k (i.2 ++ rest) = .ok (i.1, rest)) ∨
        ∀ rest, nestedValue k (i.2 ++ rest) = .error tooDeep := by
    intro i hi
    rcases Nat.lt_or_ge k i.1.depth with deep | shallow
    · exact .inr (refused i hi deep)
    · exact .inl (nestedValue_of_encodes (inside i hi) shallow)
  obtain ⟨i, hi, deeper⟩ := deep
  rw [takeArray]
  dsimp only
  rw [if_pos (by rw [Bytes.hasAtLeast_iff, List.length_append]; omega),
    repeatStep_of_failing outcome ⟨i, hi, refused i hi deeper⟩, bind_error]

/-- A key is never too deep, so an entry is read as its value is. -/
theorem entryStep_nestedValue {levels : Nat} {e : SpelledEntry}
    (key : Encodes levels (.str e.key) e.keyBytes) (rest : Bytes) :
    entryStep (nestedValue k) (e.bytes ++ rest) =
      nestedValue k (e.valueBytes ++ rest) >>= fun (v, rest) => .ok ((e.key, v), rest) := by
  rw [entryStep, SpelledEntry.bytes, List.append_assoc,
    nestedValue_of_encodes key (Nat.zero_le k), bind_ok]

/-- The same of the entries of a map. -/
theorem takeMap_of_deep {levels : Nat} (inside : ∀ e ∈ entries, e.Encoded levels)
    (refused : ∀ e ∈ entries, k < e.value.depth →
      ∀ rest, nestedValue k (e.valueBytes ++ rest) = .error tooDeep)
    (deep : ∃ e ∈ entries, k < e.value.depth) :
    takeMap (some (nestedValue k)) entries.length (entries.flatMap SpelledEntry.bytes ++ rest) =
      .error tooDeep := by
  have enough := length_flatMap_ge SpelledEntry.bytes 2 entries fun e he => (inside e he).length_ge
  have fails {e : SpelledEntry} (he : e ∈ entries) (deep : k < e.value.depth) (rest : Bytes) :
      entryStep (nestedValue k) (e.bytes ++ rest) = .error tooDeep := by
    rw [entryStep_nestedValue (inside e he).1, refused e he deep, bind_error]
  have outcome : ∀ e ∈ entries,
      (∀ rest, entryStep (nestedValue k) (e.bytes ++ rest) = .ok (e.entry, rest)) ∨
        ∀ rest, entryStep (nestedValue k) (e.bytes ++ rest) = .error tooDeep := by
    intro e he
    rcases Nat.lt_or_ge k e.value.depth with deep | shallow
    · exact .inr (fails he deep)
    · refine .inl fun rest => ?_
      rw [entryStep_nestedValue (inside e he).1, nestedValue_of_encodes (inside e he).2 shallow]
      rfl
  obtain ⟨e, he, deeper⟩ := deep
  rw [takeMap]
  dsimp only
  rw [if_pos (by rw [Bytes.hasAtLeast_iff, List.length_append]; omega),
    repeatStep_of_failing outcome ⟨e, he, fails he deeper⟩, bind_error]

end Inside

/-- A value that is too deep is refused, whatever follows it. -/
theorem nestedValue_of_deep {levels k : Nat} {v : Value} {bs : Bytes} (h : Encodes levels v bs)
    (deep : k < v.depth) (rest : Bytes) : nestedValue k (bs ++ rest) = .error tooDeep := by
  -- On the derivation: inside a container both the limit and the depth are one less.
  induction h generalizing k rest with
  | array form inside ih =>
    rw [List.append_assoc]
    cases k with
    | zero =>
      rw [nestedValue, valueStep_arrayForm form]
      rfl
    | succ k =>
      obtain ⟨v, hv, deeper⟩ := Value.exists_deeper Value.depth_array_le deep
      obtain ⟨i, hi, rfl⟩ := List.mem_map.mp hv
      rw [nestedValue, valueStep_arrayForm form]
      exact takeArray_of_deep inside (fun i hi deep => ih i hi deep) ⟨i, hi, deeper⟩
  | map form keys inside _ ih =>
    rw [List.append_assoc]
    cases k with
    | zero =>
      rw [nestedValue, valueStep_mapForm form]
      rfl
    | succ k =>
      obtain ⟨v, hv, deeper⟩ := Value.exists_deeper Value.depth_map_le deep
      obtain ⟨e, he, rfl⟩ := List.mem_map.mp hv
      rw [nestedValue, valueStep_mapForm form]
      exact takeMap_of_deep (fun e he => ⟨keys e he, inside e he⟩)
        (fun e he deep => ih e he deep) ⟨e, he, deeper⟩
  | smallInt | int => simp [Value.depth_ofInt] at deep
  | _ => cases deep

/-- With a lower limit the bytes of a value are read as before or refused as too deep. -/
theorem nestedValue_of_parse {bs : Bytes} {v : Value} {k : Nat} (h : parse bs = .ok v) :
    nestedValue k bs = if v.depth ≤ k then .ok (v, []) else .error tooDeep := by
  have spelled := (parse_eq_ok_iff bs v).mp h
  rw [← List.append_nil bs]
  split
  · exact nestedValue_of_encodes spelled ‹_› []
  · exact nestedValue_of_deep spelled (Nat.not_le.mp ‹_›) []

theorem parse_of_nestedValue {bs : Bytes} {v : Value} {k : Nat} (le : k ≤ Limits.nesting)
    (h : nestedValue k bs = .ok (v, [])) : parse bs = .ok v ∧ v.depth ≤ k := by
  obtain ⟨front, spelled, rfl⟩ := (reads_nestedValue k _ _ _).mp h
  rw [List.append_nil, parse_eq_ok_iff]
  exact (Encodes.iff_of_le le).mp spelled

/-! ## A map of one entry -/

/-- What stands in a map of one entry is read with one level less. -/
theorem parse_singleton {key : String} (short : (utf8 key).length < lengthBound) (bs : Bytes) :
    parse ([0x81] ++ (writeStr key ++ bs)) =
      nestedValue (Limits.nesting - 1) bs >>= fun (v, rest) =>
        if rest.isEmpty then .ok (.map [(key, v)]) else .error (.trailingBytes rest.length) := by
  have header : Forms.map.Spells 1 [0x81] := .inl ⟨by decide, by decide⟩
  have readsKey : nestedValue (Limits.nesting - 1) (writeStr key ++ bs) = .ok (.str key, bs) := by
    rw [← Value.write_str]
    exact nestedValue_write (.str short) bs
  have outer : nestedValue Limits.nesting =
      valueStep (some (nestedValue (Limits.nesting - 1))) := rfl
  rw [parse, outer, valueStep_mapForm header, takeMap]
  dsimp only
  split
  · rw [repeatStep, entryStep, readsKey, bind_ok]
    dsimp only
    cases nestedValue (Limits.nesting - 1) bs <;> rfl
  · -- The key alone takes a byte, so nothing is left for the value.
    rename_i few
    have pos := length_writeStr_pos key
    rw [Bytes.hasAtLeast_iff, List.length_append] at few
    obtain rfl := List.eq_nil_of_length_eq_zero (l := bs) (by omega)
    rfl

end LedgerCodec.Wire
