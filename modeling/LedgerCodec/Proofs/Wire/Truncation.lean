import LedgerCodec.Txn.Transaction
import LedgerCodec.Proofs.Wire.Grammar
/-!
# Bytes cut short and bytes left over

Reading never looks beyond the bytes that spell a value, and asks for all of
them. So a value that is followed by other bytes is read as before, and of a value
that is cut short, wherever that is, the end is reported and nothing else:
`starves_nestedValue`. The early checks of containers report the same end.
-/

namespace LedgerCodec.Wire

/-! ## Beginnings -/

/-- Bytes are the beginning of others, and some of these are missing. -/
def Cut (short whole : Bytes) : Prop :=
  ∃ missing, missing ≠ [] ∧ whole = short ++ missing

namespace Cut

variable {short whole front back : Bytes} {b : UInt8}

theorem of_prefix (h : short <+: whole) (ne : short ≠ whole) : Cut short whole := by
  obtain ⟨missing, rfl⟩ := h
  refine ⟨missing, ?_, rfl⟩
  rintro rfl
  simp at ne

theorem length_lt (h : Cut short whole) : short.length < whole.length := by
  obtain ⟨missing, some, rfl⟩ := h
  have := List.length_pos_iff.mpr some
  simp only [List.length_append]
  omega

/-- Two parts are cut short in the first of them, or after it. -/
theorem append (h : Cut short (front ++ back)) :
    Cut short front ∨ ∃ rest, short = front ++ rest ∧ Cut rest back := by
  obtain ⟨missing, some, eq⟩ := h
  rcases List.append_eq_append_iff.mp eq with ⟨rest, rfl, rfl⟩ | ⟨gone, rfl, rfl⟩
  · exact .inr ⟨rest, rfl, missing, some, rfl⟩
  · by_cases none : gone = []
    · subst none
      exact .inr ⟨[], by simp, back, by simpa using some, rfl⟩
    · exact .inl ⟨gone, none, rfl⟩

theorem singleton (h : Cut short [b]) : short = [] := by
  have := h.length_lt
  simpa using this

theorem cons (h : Cut short (b :: back)) :
    short = [] ∨ ∃ rest, short = b :: rest ∧ Cut rest back := by
  have parts : Cut short ([b] ++ back) := h
  rcases parts.append with first | ⟨rest, rfl, later⟩
  · exact .inl first.singleton
  · exact .inr ⟨rest, rfl, later⟩

end Cut

/-! ## Steps on too few bytes -/

theorem take_of_short {count : Nat} {bs : Bytes} (h : bs.length < count) :
    take count bs = .error .unexpectedEnd := by
  have few : ¬ bs.hasAtLeast count = true := by
    rw [Bytes.hasAtLeast_iff]
    omega
  rw [take, if_neg few]

theorem takeNat_of_short {width : Nat} {bs : Bytes} (h : bs.length < width) :
    takeNat width bs = .error .unexpectedEnd := by
  rw [takeNat, take_of_short h, bind_error]

theorem takeStr_of_short {length : Nat} {bs : Bytes} (h : bs.length < length) :
    takeStr length bs = .error .unexpectedEnd := by
  rw [takeStr, take_of_short h, bind_error]

/-- The width of the number that follows the first byte of a value, if one does. -/
def Head.width? : Head → Option Nat
  | .uint width | .int width | .str width | .bin width | .array width | .map width => some width
  | _ => none

section Header

variable {inner : Inner} {f : Forms} {n : Nat} {short header : Bytes}

/-- A number that follows the first byte may be cut short. -/
theorem valueStep_of_short {marker : UInt8} {width : Nat} {bs : Bytes}
    (announced : (Head.ofByte marker).width? = some width) (h : bs.length < width) :
    valueStep inner (marker :: bs) = .error .unexpectedEnd := by
  simp only [valueStep]
  generalize Head.ofByte marker = head at announced
  cases head with
  | uint | int | str | bin | array | map =>
    obtain rfl := Option.some.inj announced
    simp only [takeNat_of_short h, bind_error]
  | _ => cases announced

/-- A value is cut short in its header, or in what is read once the header is known. -/
theorem valueStep_of_cut {body : Bytes} {next : Bytes → Except Error (Value × Bytes)}
    (wide : ∀ m ∈ f.wide, (Head.ofByte m.1).width? = some m.2) (form : f.Spells n header)
    (known : ∀ {rest}, valueStep inner (header ++ rest) = next rest)
    (starves : ∀ {rest}, Cut rest body → next rest = .error .unexpectedEnd)
    (cut : Cut short (header ++ body)) : valueStep inner short = .error .unexpectedEnd := by
  rcases cut.append with first | ⟨rest, rfl, later⟩
  · rcases form with ⟨-, rfl⟩ | ⟨m, hm, -, rfl⟩
    · rw [first.singleton, valueStep]
    · rcases first.cons with rfl | ⟨digits, rfl, few⟩
      · rw [valueStep]
      · exact valueStep_of_short (wide m hm) (by simpa using few.length_lt)
  · rw [known, starves later]

end Header

/-! ## Steps on values cut short -/

/-- A step finds the end of the bytes in every beginning of bytes that spell something. -/
def Starves {α : Type} (step : Bytes → Except Error (α × Bytes)) (spells : α → Bytes → Prop) :
    Prop :=
  ∀ {a whole short}, spells a whole → Cut short whole → step short = .error .unexpectedEnd

section Repeat

variable {α β : Type} {step : Bytes → Except Error (α × Bytes)} {spelled : β → Prop}
  {result : β → α} {bytes : β → Bytes}

theorem repeatStep_of_cut
    (reads : Reads step fun a bs => ∃ b, spelled b ∧ result b = a ∧ bytes b = bs)
    (starves : Starves step fun a bs => ∃ b, spelled b ∧ result b = a ∧ bytes b = bs)
    {parts : List β} {read : List α} {short : Bytes} (all : ∀ b ∈ parts, spelled b)
    (cut : Cut short (parts.flatMap bytes)) :
    repeatStep step parts.length read short = .error .unexpectedEnd := by
  induction parts generalizing read short with
  | nil => exact absurd cut.length_lt (by simp)
  | cons b parts ih =>
    obtain ⟨good, all⟩ := List.forall_mem_cons.mp all
    rw [List.flatMap_cons] at cut
    rw [List.length_cons, repeatStep]
    rcases cut.append with first | ⟨rest, rfl, later⟩
    · rw [starves ⟨b, good, rfl, rfl⟩ first, bind_error]
    · rw [(reads _ _ _).mpr ⟨_, ⟨b, good, rfl, rfl⟩, rfl⟩, bind_ok]
      exact ih all later

end Repeat

section Inside

variable {levels n : Nat} {value : Bytes → Except Error (Value × Bytes)} {short header : Bytes}

theorem starves_entryStep (reads : Reads value (Encodes levels))
    (starves : Starves value (Encodes levels)) : Starves (entryStep value) fun entry bs =>
      ∃ e : SpelledEntry, e.Encoded levels ∧ e.entry = entry ∧ e.bytes = bs := by
  rintro entry whole short ⟨e, ⟨keySpelled, valueSpelled⟩, rfl, rfl⟩ cut
  rw [entryStep]
  rcases cut.append with first | ⟨rest, rfl, later⟩
  · rw [starves keySpelled first, bind_error]
  · rw [(reads _ _ _).mpr ⟨_, keySpelled, rfl⟩, bind_ok]
    dsimp only
    rw [starves valueSpelled later, bind_error]

/-- What `inner` reads it also finds to be cut short. -/
def InnerStarves (levels : Nat) (inner : Inner) : Prop :=
  ∀ value ∈ inner, ∃ k, levels = k + 1 ∧ Starves value (Encodes k)

variable {inner : Inner}

theorem takeArray_of_cut (below : InnerReads (levels + 1) inner)
    (starves : InnerStarves (levels + 1) inner) {items : List (Value × Bytes)}
    (all : ∀ i ∈ items, Encodes levels i.1 i.2) (cut : Cut short (items.flatMap Prod.snd)) :
    takeArray inner items.length short = .error .unexpectedEnd := by
  cases inner with
  | none => cases below
  | some value =>
    obtain ⟨_, eq, reads⟩ := below
    cases eq
    obtain ⟨_, eq, starves⟩ := starves value rfl
    cases eq
    have reads : Reads value fun v bs =>
        ∃ i : Value × Bytes, Encodes levels i.1 i.2 ∧ i.1 = v ∧ i.2 = bs := by simpa using reads
    have starves : Starves value fun v bs =>
        ∃ i : Value × Bytes, Encodes levels i.1 i.2 ∧ i.1 = v ∧ i.2 = bs := by
      rintro v bs short ⟨i, spelled, rfl, rfl⟩ cut
      exact starves spelled cut
    rw [takeArray]
    split
    · rw [repeatStep_of_cut reads starves all cut, bind_error]
    · rfl

theorem takeMap_of_cut (below : InnerReads (levels + 1) inner)
    (starves : InnerStarves (levels + 1) inner) {entries : List SpelledEntry}
    (all : ∀ e ∈ entries, e.Encoded levels) (cut : Cut short (entries.flatMap SpelledEntry.bytes)) :
    takeMap inner entries.length short = .error .unexpectedEnd := by
  cases inner with
  | none => cases below
  | some value =>
    obtain ⟨_, eq, reads⟩ := below
    cases eq
    obtain ⟨_, eq, starves⟩ := starves value rfl
    cases eq
    rw [takeMap]
    split
    · rw [repeatStep_of_cut (reads_entryStep reads) (starves_entryStep reads starves) all cut,
        bind_error]
    · rfl

theorem starves_valueStep (below : InnerReads levels inner) (starves : InnerStarves levels inner) :
    Starves (valueStep inner) (Encodes levels) := by
  intro v whole short spelled cut
  cases spelled with
  | nil | bool | smallInt => rw [cut.singleton, valueStep]
  | uint form =>
    -- No body follows the header, so the end is in the header.
    have header : Cut short (whole ++ []) := by rwa [List.append_nil]
    refine valueStep_of_cut (by decide) form (valueStep_uintForm form) (fun cut => ?_) header
    exact absurd cut.length_lt (by simp)
  | @int _ n marker width known =>
    have announced : ∀ m ∈ intMarkers, (Head.ofByte m.1).width? = some m.2 := by decide
    rcases cut.cons with rfl | ⟨digits, rfl, few⟩
    · rw [valueStep]
    · exact valueStep_of_short (announced _ known) (by simpa using few.length_lt)
  | str form =>
    refine valueStep_of_cut (by decide) form (valueStep_strForm form) (fun cut => ?_) cut
    exact takeStr_of_short cut.length_lt
  | bin form =>
    refine valueStep_of_cut (by decide) form (valueStep_binForm form) (fun cut => ?_) cut
    rw [take_of_short cut.length_lt, bind_error]
  | array form inside =>
    refine valueStep_of_cut (by decide) form (valueStep_arrayForm form) (fun cut => ?_) cut
    exact takeArray_of_cut below starves inside cut
  | map form keys inside =>
    refine valueStep_of_cut (by decide) form (valueStep_mapForm form) (fun cut => ?_) cut
    exact takeMap_of_cut below starves (fun e he => ⟨keys e he, inside e he⟩) cut

end Inside

/-! ## Whole values -/

theorem starves_nestedValue (levels : Nat) : Starves (nestedValue levels) (Encodes levels) := by
  induction levels with
  | zero => exact @starves_valueStep _ none rfl nofun
  | succ levels ih =>
    have below : InnerReads (levels + 1) (some (nestedValue levels)) :=
      ⟨levels, rfl, reads_nestedValue levels⟩
    have inside : InnerStarves (levels + 1) (some (nestedValue levels)) := by
      rintro value ⟨⟩
      exact ⟨levels, rfl, ih⟩
    exact @starves_valueStep _ _ below inside

theorem parse_of_cut {bs short : Bytes} {v : Value} (h : parse bs = .ok v) (cut : Cut short bs) :
    parse short = .error .unexpectedEnd := by
  rw [parse, starves_nestedValue _ ((parse_eq_ok_iff bs v).mp h) cut, bind_error]

theorem parse_append {bs more : Bytes} {v : Value} (h : parse bs = .ok v) (some : more ≠ []) :
    parse (bs ++ more) = .error (.trailingBytes more.length) := by
  have read := (reads_nestedValue _ _ _ more).mpr ⟨bs, (parse_eq_ok_iff bs v).mp h, rfl⟩
  rw [parse, read, bind_ok]
  simp [some]

/-- What is wrong with the bytes is wrong with them for every type. -/
theorem decode_of_parse_eq_error {α : Type} [Canonical α] {bs : Bytes} {e : Error}
    (h : parse bs = .error e) : (decode bs : Except Error α) = .error e := by
  rw [decode, h, bind_error]

/-- Of bytes that hold a value, no beginning holds one, and they hold none together with bytes that
follow. The first is reported as an end that comes too early, the second with the number of the
bytes that follow, and so it is whatever the bytes are decoded to. -/
theorem parse_cut_and_extended {bs : Bytes} {v : Value} (h : parse bs = .ok v) :
    (∀ short, short <+: bs → short ≠ bs → parse short = .error .unexpectedEnd ∧
      ∀ (α : Type) [Canonical α], (decode short : Except Error α) = .error .unexpectedEnd) ∧
    ∀ more, more ≠ [] → parse (bs ++ more) = .error (.trailingBytes more.length) ∧
      ∀ (α : Type) [Canonical α],
        (decode (bs ++ more) : Except Error α) = .error (.trailingBytes more.length) := by
  constructor
  · intro short begins ne
    have starved := parse_of_cut h (Cut.of_prefix begins ne)
    exact ⟨starved, fun α _ => decode_of_parse_eq_error starved⟩
  · intro more some
    have left := parse_append h some
    exact ⟨left, fun α _ => decode_of_parse_eq_error left⟩

/-- A map that is cut short inside the UTF-8 of its key and inside a number in its list, and one
that is followed by two bytes. -/
theorem parse_cut_and_extended_map :
    let bs : Bytes := [0x81, 0xa2, 0xc3, 0xa9, 0x92, 0xcd, 0x03, 0xe8, 0xc0]
    parse bs = .ok (.map [("é", .array [.uint 1000, .nil])]) ∧
      parse (bs.take 3) = .error .unexpectedEnd ∧
      (decode (bs.take 7) : Except Error Transaction) = .error .unexpectedEnd ∧
      (decode (bs ++ [0xc1, 0x00]) : Except Error Transaction) = .error (.trailingBytes 2) := by
  intro bs
  have parsed : parse bs = .ok (.map [("é", .array [.uint 1000, .nil])]) := by rfl
  obtain ⟨cut, extended⟩ := parse_cut_and_extended parsed
  refine ⟨parsed, (cut _ (bs.take_prefix 3) (by decide)).1, ?_, ?_⟩
  · exact (cut _ (bs.take_prefix 7) (by decide)).2 Transaction
  · exact (extended [0xc1, 0x00] (by decide)).2 Transaction

end LedgerCodec.Wire
