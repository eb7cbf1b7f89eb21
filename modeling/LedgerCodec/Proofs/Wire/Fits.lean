import LedgerCodec.Wire.Reader
import LedgerCodec.Proofs.Outcome
/-!
# What the wire can carry

`Fits` says which values the format has bytes for: texts, blobs, lists and maps
shorter than 2^32, nested no deeper than a limit, and signed integers only below
zero. Whatever is read fits: `fits_of_parse`. The lengths come from the widths
of the headers and the depth from the levels that reading goes down.
-/

namespace LedgerCodec.Wire

/-! ## What the format can carry -/

/-- Lengths below this bound fit into the four bytes that the widest header has for them. -/
def lengthBound : Nat := Bytes.capacity 4

example : lengthBound = 4294967296 := rfl

/-- The format carries the value in `levels` nested containers. -/
inductive Fits : (levels : Nat) → Value → Prop
  | nil {levels : Nat} : Fits levels .nil
  | bool {levels : Nat} (b : Bool) : Fits levels (.bool b)
  | uint {levels : Nat} (n : UInt64) : Fits levels (.uint n)
  | int {levels : Nat} {n : Int64} (negative : n < 0) : Fits levels (.int n)
  | str {levels : Nat} {s : String} (short : (utf8 s).length < lengthBound) : Fits levels (.str s)
  | bin {levels : Nat} {bs : Bytes} (short : bs.length < lengthBound) : Fits levels (.bin bs)
  | array {levels : Nat} {items : List Value} (short : items.length < lengthBound)
      (inside : ∀ v ∈ items, Fits levels v) : Fits (levels + 1) (.array items)
  | map {levels : Nat} {entries : List (String × Value)} (short : entries.length < lengthBound)
      (keys : ∀ e ∈ entries, (utf8 e.1).length < lengthBound)
      (inside : ∀ e ∈ entries, Fits levels e.2) : Fits (levels + 1) (.map entries)

theorem Fits.mono {levels levels' : Nat} {v : Value} (h : Fits levels v) (le : levels ≤ levels') :
    Fits levels' v := by
  induction h generalizing levels' with
  | nil => exact .nil
  | bool b => exact .bool b
  | uint n => exact .uint n
  | int negative => exact .int negative
  | str short => exact .str short
  | bin short => exact .bin short
  | array short _ ih =>
    obtain ⟨k, rfl⟩ : ∃ k, levels' = k + 1 := ⟨levels' - 1, by omega⟩
    exact .array short fun v hv => ih v hv (by omega)
  | map short keys _ ih =>
    obtain ⟨k, rfl⟩ : ∃ k, levels' = k + 1 := ⟨levels' - 1, by omega⟩
    exact .map short keys fun e he => ih e he (by omega)

/-! ## What is read fits -/

/-- Whether a head bounds the number that it holds, or the width of the number after it, as the
format does. -/
def Head.isBounded : Head → Bool
  | .smallStr length | .smallArray length | .smallMap length => length < 32
  | .str width | .bin width | .array width | .map width => width ≤ 4
  | .int width => width ≤ 8
  | _ => true

theorem isBounded_ofByte (b : UInt8) : (Head.ofByte b).isBounded = true := by
  have all : ∀ n < 256, (Head.ofByte (UInt8.ofNat n)).isBounded = true := by
    decide +kernel
  have := all b.toNat b.toNat_lt
  rwa [UInt8.ofNat_toNat] at this

theorem capacity_mono {w w' : Nat} (h : w ≤ w') : Bytes.capacity w ≤ Bytes.capacity w' := by
  induction h with
  | refl => exact Nat.le_refl _
  | step _ ih => exact Nat.le_trans ih (Nat.le_mul_of_pos_right _ (by decide))

theorem length_of_take {count : Nat} {bs raw rest : Bytes} (h : take count bs = .ok (raw, rest)) :
    raw.length = count := by
  unfold take at h
  split at h
  · rename_i enough
    have := (Bytes.hasAtLeast_iff count bs).mp enough
    cases h
    rw [List.length_take]
    omega
  · cases h

theorem lt_of_takeNat {width n : Nat} {bs rest : Bytes} (h : takeNat width bs = .ok (n, rest)) :
    n < Bytes.capacity width := by
  obtain ⟨⟨digits, left⟩, taken, eq⟩ := bind_eq_ok.mp h
  cases eq
  exact length_of_take taken ▸ Bytes.ofBigEndian_lt digits

theorem fits_of_takeStr {levels length : Nat} {bs rest : Bytes} {v : Value}
    (short : length < lengthBound) (h : takeStr length bs = .ok (v, rest)) : Fits levels v := by
  obtain ⟨⟨raw, left⟩, taken, eq⟩ := bind_eq_ok.mp h
  dsimp only at eq
  split at eq
  · rename_i s hs
    cases eq
    refine .str ?_
    rw [utf8_of_ofUtf8? hs, length_of_take taken]
    exact short
  · cases eq

theorem fits_signed {levels width n : Nat} (hw : width ≤ 8) (h : n < Bytes.capacity width) :
    Fits levels (signed width n) := by
  unfold signed
  split
  · exact .uint _
  · have := capacity_mono hw
    refine .int (Int64.lt_iff_toInt_lt.mpr ?_)
    have wide : Bytes.capacity 8 = 0x10000000000000000 := rfl
    rw [Int64.toInt_ofInt_of_le (by omega) (by omega)]
    show _ < (0 : Int)
    omega

theorem repeatStep_ok {α : Type} {step : Bytes → Except Error (α × Bytes)} {count : Nat} :
    ∀ {read xs : List α} {bs rest : Bytes}, repeatStep step count read bs = .ok (xs, rest) →
      ∃ ys, xs = read.reverse ++ ys ∧ ys.length = count ∧
        ∀ y ∈ ys, ∃ bs rest, step bs = .ok (y, rest) := by
  induction count with
  | zero => intro read xs bs rest h; cases h; exact ⟨[], by simp, rfl, by simp⟩
  | succ count ih =>
    intro read xs bs rest h
    obtain ⟨⟨y, left⟩, first, later⟩ := bind_eq_ok.mp h
    obtain ⟨ys, eq, len, all⟩ := ih later
    refine ⟨y :: ys, by simp [eq], by simp [len], fun z hz => ?_⟩
    rcases List.mem_cons.mp hz with rfl | hz
    · exact ⟨bs, left, first⟩
    · exact all z hz

theorem repeatStep_nil_ok {α : Type} {step : Bytes → Except Error (α × Bytes)} {count : Nat}
    {xs : List α} {bs rest : Bytes} (h : repeatStep step count [] bs = .ok (xs, rest)) :
    xs.length = count ∧ ∀ x ∈ xs, ∃ bs rest, step bs = .ok (x, rest) := by
  obtain ⟨ys, rfl, len, all⟩ := repeatStep_ok h
  exact ⟨len, all⟩

theorem entryStep_ok {value : Bytes → Except Error (Value × Bytes)} {entry : String × Value}
    {bs rest : Bytes} (h : entryStep value bs = .ok (entry, rest)) :
    (∃ bs rest, value bs = .ok (.str entry.1, rest)) ∧ ∃ bs rest, value bs = .ok (entry.2, rest) := by
  obtain ⟨⟨key, left⟩, hkey, eq⟩ := bind_eq_ok.mp h
  dsimp only at eq
  split at eq
  · obtain ⟨⟨v, left'⟩, hv, eq⟩ := bind_eq_ok.mp eq
    cases eq
    exact ⟨⟨bs, left, hkey⟩, left, _, hv⟩
  · cases eq

/-- What `inner` reads fits inside a container at `levels`. -/
def InnerFits (levels : Nat) (inner : Inner) : Prop :=
  ∀ value ∈ inner, ∃ k, levels = k + 1 ∧
    ∀ {bs rest : Bytes} {v : Value}, value bs = .ok (v, rest) → Fits k v

theorem fits_of_takeArray {levels length : Nat} {inner : Inner} {bs rest : Bytes} {v : Value}
    (hin : InnerFits levels inner) (short : length < lengthBound)
    (h : takeArray inner length bs = .ok (v, rest)) : Fits levels v := by
  unfold takeArray at h
  split at h
  · cases h
  · rename_i value
    obtain ⟨k, rfl, fits⟩ := hin value rfl
    split at h
    · obtain ⟨⟨items, left⟩, hitems, eq⟩ := bind_eq_ok.mp h
      obtain ⟨rfl, all⟩ := repeatStep_nil_ok hitems
      cases eq
      refine .array short fun y hy => ?_
      obtain ⟨bs, rest, hy⟩ := all y hy
      exact fits hy
    · cases h

theorem fits_of_takeMap {levels length : Nat} {inner : Inner} {bs rest : Bytes} {v : Value}
    (hin : InnerFits levels inner) (short : length < lengthBound)
    (h : takeMap inner length bs = .ok (v, rest)) : Fits levels v := by
  unfold takeMap at h
  split at h
  · cases h
  · rename_i value
    obtain ⟨k, rfl, fits⟩ := hin value rfl
    split at h
    · obtain ⟨⟨entries, left⟩, hentries, eq⟩ := bind_eq_ok.mp h
      obtain ⟨rfl, all⟩ := repeatStep_nil_ok hentries
      cases eq
      refine .map short (fun e he => ?_) fun e he => ?_ <;> obtain ⟨bs, rest, step⟩ := all e he
      · obtain ⟨bs, rest, hk⟩ := (entryStep_ok step).1
        -- Keys were read as values too, and of these only texts are keys.
        cases fits hk
        assumption
      · obtain ⟨bs, rest, hv⟩ := (entryStep_ok step).2
        exact fits hv
    · cases h

theorem fits_of_valueStep {levels : Nat} {inner : Inner} {bs rest : Bytes} {v : Value}
    (hin : InnerFits levels inner) (h : valueStep inner bs = .ok (v, rest)) : Fits levels v := by
  cases bs with
  | nil => cases h
  | cons marker bs =>
    have bounded := isBounded_ofByte marker
    have below {width n : Nat} {bs rest : Bytes} (hw : width ≤ 4)
        (h : takeNat width bs = .ok (n, rest)) : n < lengthBound :=
      Nat.lt_of_lt_of_le (lt_of_takeNat h) (capacity_mono hw)
    have small {n : Nat} (h : n < 32) : n < lengthBound := Nat.lt_trans h (by decide)
    simp only [valueStep] at h
    -- Only the bound of the head matters from here on, not the byte that it came from.
    generalize Head.ofByte marker = head at h bounded
    cases head with
    | nil => cases h; exact .nil
    | bool b => cases h; exact .bool b
    | smallUint n => cases h; exact .uint _
    | smallInt n => cases h; exact fits_signed (by decide) n.toNat_lt
    | uint width => obtain ⟨⟨n, left⟩, -, eq⟩ := bind_eq_ok.mp h; cases eq; exact .uint _
    | int width =>
      obtain ⟨⟨n, left⟩, hn, eq⟩ := bind_eq_ok.mp h
      cases eq
      exact fits_signed (by simpa [Head.isBounded] using bounded) (lt_of_takeNat hn)
    | smallStr length => exact fits_of_takeStr (small (by simpa [Head.isBounded] using bounded)) h
    | str width =>
      obtain ⟨⟨n, left⟩, hn, eq⟩ := bind_eq_ok.mp h
      exact fits_of_takeStr (below (by simpa [Head.isBounded] using bounded) hn) eq
    | bin width =>
      obtain ⟨⟨n, left⟩, hn, eq⟩ := bind_eq_ok.mp h
      obtain ⟨⟨raw, left'⟩, taken, eq⟩ := bind_eq_ok.mp eq
      cases eq
      refine .bin ?_
      rw [length_of_take taken]
      exact below (by simpa [Head.isBounded] using bounded) hn
    | smallArray length =>
      exact fits_of_takeArray hin (small (by simpa [Head.isBounded] using bounded)) h
    | array width =>
      obtain ⟨⟨n, left⟩, hn, eq⟩ := bind_eq_ok.mp h
      exact fits_of_takeArray hin (below (by simpa [Head.isBounded] using bounded) hn) eq
    | smallMap length =>
      exact fits_of_takeMap hin (small (by simpa [Head.isBounded] using bounded)) h
    | map width =>
      obtain ⟨⟨n, left⟩, hn, eq⟩ := bind_eq_ok.mp h
      exact fits_of_takeMap hin (below (by simpa [Head.isBounded] using bounded) hn) eq
    | unsupported => cases h

theorem fits_of_nestedValue {levels : Nat} : ∀ {bs rest : Bytes} {v : Value},
    nestedValue levels bs = .ok (v, rest) → Fits levels v := by
  induction levels with
  | zero => exact fun h => @fits_of_valueStep _ none _ _ _ nofun h
  | succ levels ih =>
    -- What stands inside is read with one level less.
    refine fun h => @fits_of_valueStep _ (some (nestedValue levels)) _ _ _ (fun value hv => ?_) h
    cases hv
    exact ⟨levels, rfl, ih⟩

/-- Whatever bytes hold could have been written. -/
theorem fits_of_parse {bs : Bytes} {v : Value} (h : parse bs = .ok v) : Fits Limits.nesting v := by
  obtain ⟨⟨v', rest⟩, read, eq⟩ := bind_eq_ok.mp h
  dsimp only at eq
  split at eq
  · cases eq; exact fits_of_nestedValue read
  · cases eq

end LedgerCodec.Wire
