import LedgerCodec.Number.Shortest
/-!
# The tokens of a JSON text

A JSON text is a row of brackets, commas, colons, literals, numbers and texts
with blanks between them. `Token.scan` finds as many of them as can be read, and
says whether that was the whole text.

Some tokens are well formed and still hold no value: a text with half a surrogate
pair, and a number beyond the largest floating-point one. They are kept, since a
reader that skips a value takes no notice of that.
-/

namespace LedgerCodec.Json

inductive Number
  /-- An integer that 64 bits hold, with or without sign. -/
  | integer (n : Int)
  /-- Any other number, rounded. -/
  | real (negative : Bool) (x : Binary64)
  /-- A number beyond the largest one that can be rounded to. -/
  | beyond
deriving DecidableEq, Repr

inductive Token
  | openList
  | closeList
  | openRecord
  | closeRecord
  | comma
  | colon
  | null
  | bool (b : Bool)
  | number (n : Number)
  /-- A text; none if it has half a surrogate pair. -/
  | text (s : Option String)
deriving DecidableEq, Repr

/-! ## Texts -/

/-- A piece of a text as it is spelled. -/
inductive Piece
  | char (c : Char)
  /-- A UTF-16 unit, escaped by its number. -/
  | unit (n : Nat)
deriving DecidableEq, Repr

def hexValue? (c : Char) : Option Nat :=
  if c.isDigit then some (c.toNat - 48)
  else if 'a' ≤ c ∧ c ≤ 'f' then some (c.toNat - 87)
  else if 'A' ≤ c ∧ c ≤ 'F' then some (c.toNat - 55)
  else none

/-- The unit with four hexadecimal digits. -/
def unit? (a b c d : Char) : Option Nat :=
  match hexValue? a, hexValue? b, hexValue? c, hexValue? d with
  | some a, some b, some c, some d => some (((a * 16 + b) * 16 + c) * 16 + d)
  | _, _, _, _ => none

/-- The character that an escape letter stands for. -/
def unescape? : Char → Option Char
  | '"' => some '"'
  | '\\' => some '\\'
  | '/' => some '/'
  | 'b' => some (Char.ofNat 8)
  | 'f' => some (Char.ofNat 12)
  | 'n' => some '\n'
  | 'r' => some '\r'
  | 't' => some '\t'
  | _ => none

/-- The pieces of a text up to its closing quote, and what follows; `read` holds those before,
last first. -/
def pieces? : (read : List Piece) → List Char → Option (List Piece × List Char)
  | _, [] => none
  | read, '"' :: rest => some (read.reverse, rest)
  | read, '\\' :: 'u' :: a :: b :: c :: d :: rest =>
    match unit? a b c d with
    | some n => pieces? (.unit n :: read) rest
    | none => none
  | read, '\\' :: letter :: rest =>
    match unescape? letter with
    | some c => pieces? (.char c :: read) rest
    | none => none
  | _, ['\\'] => none
  | read, c :: rest => if c.toNat < 0x20 then none else pieces? (.char c :: read) rest

/-- The characters that pieces stand for, if every half of a surrogate pair has its other half;
`read` holds the characters before, last first. -/
def joinPieces : (read : List Char) → List Piece → Option (List Char)
  | read, [] => some read.reverse
  | read, .char c :: rest => joinPieces (c :: read) rest
  | read, .unit n :: rest =>
    if n < 0xd800 ∨ 0xe000 ≤ n then joinPieces (Char.ofNat n :: read) rest
    else if n < 0xdc00 then
      match rest with
      | .unit m :: rest =>
        if 0xdc00 ≤ m ∧ m < 0xe000 then
          joinPieces (Char.ofNat ((n - 0xd800) * 0x400 + (m - 0xdc00) + 0x10000) :: read) rest
        else none
      | _ => none
    else none

/-- The token of a text, given what follows its opening quote. -/
def scanText (cs : List Char) : Option (Token × List Char) :=
  match pieces? [] cs with
  | some (ps, rest) => some (.text ((joinPieces [] ps).map String.ofList), rest)
  | none => none

/-! ## Numbers -/

/-- A number as it is spelled: its digits before and after the point, and its exponent. -/
structure Numeral where
  negative : Bool
  whole : List Char
  fraction : Option (List Char)
  exponent : Option Int
deriving DecidableEq, Repr

/-- The number with decimal digits. -/
def digitsValue (ds : List Char) : Nat :=
  ds.foldl (fun n d => n * 10 + (d.toNat - 48)) 0

/-- Takes digits into a significand as long as it stays below 2^64. Gives the significand and the
number of digits left over. -/
def absorb : (significand : Nat) → List Char → Nat × Nat
  | significand, [] => (significand, 0)
  | significand, d :: ds =>
    let next := significand * 10 + (d.toNat - 48)
    if next < UInt64.size then absorb next ds else (significand, ds.length + 1)

/-- The number that a numeral stands for. An integer beyond 64 bits, and minus zero, is a real
number. -/
def Numeral.value (x : Numeral) : Number :=
  let (whole, dropped) := absorb 0 x.whole
  if x.fraction = none ∧ x.exponent = none ∧ dropped = 0 ∧
      (x.negative → whole ≠ 0 ∧ whole ≤ UInt64.size / 2) then
    .integer (if x.negative then -(whole : Int) else whole)
  else
    let fraction := x.fraction.getD []
    let (significand, unread) := absorb whole fraction
    let scale : Int := dropped - ((fraction.length - unread : Nat) : Int)
    match Binary64.ofDecimal significand (scale + x.exponent.getD 0) with
    | some y => .real x.negative y
    | none => .beyond

/-- The sign, if any, and what follows. -/
def scanSign : List Char → Bool × List Char
  | '-' :: rest => (true, rest)
  | rest => (false, rest)

/-- The digits at the front, at least one, and what follows. -/
def scanDigits (cs : List Char) : Option (List Char × List Char) :=
  let ds := cs.takeWhile Char.isDigit
  if ds.isEmpty then none else some (ds, cs.dropWhile Char.isDigit)

/-- The fraction, if any, and what follows. -/
def scanFraction : List Char → Option (Option (List Char) × List Char)
  | '.' :: rest => (scanDigits rest).map fun (ds, rest) => (some ds, rest)
  | rest => some (none, rest)

/-- The digits of an exponent with its sign, and what follows. -/
def scanPower (negative : Bool) (cs : List Char) : Option (Option Int × List Char) :=
  (scanDigits cs).map fun (ds, rest) =>
    let n : Int := digitsValue ds
    (some (if negative then -n else n), rest)

/-- The exponent, if any, and what follows. -/
def scanExponent : List Char → Option (Option Int × List Char)
  | c :: rest =>
    if c = 'e' ∨ c = 'E' then
      match rest with
      | '+' :: rest => scanPower false rest
      | '-' :: rest => scanPower true rest
      | rest => scanPower false rest
    else some (none, c :: rest)
  | [] => some (none, [])

/-- The numeral at the front and what follows. No digit stands after a leading zero. -/
def scanNumeral (cs : List Char) : Option (Numeral × List Char) := do
  let (negative, rest) := scanSign cs
  let (whole, rest) ← scanDigits rest
  if whole.head? = some '0' ∧ whole.length ≠ 1 then none
  else
    let (fraction, rest) ← scanFraction rest
    let (exponent, rest) ← scanExponent rest
    some (⟨negative, whole, fraction, exponent⟩, rest)

/-! ## Whole texts -/

/-- Whether a character may stand between tokens. -/
def isBlank (c : Char) : Bool :=
  c = ' ' || c = '\n' || c = '\t' || c = '\r'

/-- The rest of a literal whose first letter has been read. -/
def scanLiteral (token : Token) (letters : List Char) (cs : List Char) :
    Option (Token × List Char) :=
  if letters.isPrefixOf cs then some (token, cs.drop letters.length) else none

/-- The token that begins with a character, and what follows it. -/
def next? (c : Char) (rest : List Char) : Option (Token × List Char) :=
  match c with
  | '[' => some (.openList, rest)
  | ']' => some (.closeList, rest)
  | '{' => some (.openRecord, rest)
  | '}' => some (.closeRecord, rest)
  | ',' => some (.comma, rest)
  | ':' => some (.colon, rest)
  | '"' => scanText rest
  | 'n' => scanLiteral .null ['u', 'l', 'l'] rest
  | 't' => scanLiteral (.bool true) ['r', 'u', 'e'] rest
  | 'f' => scanLiteral (.bool false) ['a', 'l', 's', 'e'] rest
  | c => (scanNumeral (c :: rest)).map fun (x, rest) => (.number x.value, rest)

theorem length_pieces? {read ps : List Piece} {cs rest : List Char}
    (h : pieces? read cs = some (ps, rest)) : rest.length < cs.length := by
  fun_induction pieces? read cs <;> simp_all <;> omega

theorem length_dropWhile_le (p : Char → Bool) (cs : List Char) :
    (cs.dropWhile p).length ≤ cs.length :=
  (List.dropWhile_sublist p).length_le

theorem length_scanDigits {cs ds rest : List Char} (h : scanDigits cs = some (ds, rest)) :
    rest.length < cs.length := by
  unfold scanDigits at h
  cases cs with
  | nil => simp at h
  | cons c cs =>
    by_cases hc : c.isDigit
    · simp only [List.takeWhile_cons, hc, if_true, List.isEmpty_cons, Bool.false_eq_true, if_false,
        List.dropWhile_cons, Option.some.injEq, Prod.mk.injEq] at h
      have := length_dropWhile_le Char.isDigit cs
      rw [← h.2]
      simp only [List.length_cons]
      omega
    · simp [hc] at h

theorem length_scanSign (cs : List Char) : (scanSign cs).2.length ≤ cs.length := by
  unfold scanSign
  split <;> simp

theorem length_scanFraction {cs rest : List Char} {f : Option (List Char)}
    (h : scanFraction cs = some (f, rest)) : rest.length ≤ cs.length := by
  unfold scanFraction at h
  split at h
  · simp only [Option.map_eq_some_iff, Prod.mk.injEq] at h
    obtain ⟨⟨ds, r⟩, hd, -, rfl⟩ := h
    have := length_scanDigits hd
    simp only [List.length_cons]
    omega
  · simp_all

theorem length_scanPower {negative : Bool} {cs rest : List Char} {e : Option Int}
    (h : scanPower negative cs = some (e, rest)) : rest.length ≤ cs.length := by
  simp only [scanPower, Option.map_eq_some_iff, Prod.mk.injEq] at h
  obtain ⟨⟨ds, r⟩, hd, -, rfl⟩ := h
  exact Nat.le_of_lt (length_scanDigits hd)

theorem length_scanExponent {cs rest : List Char} {e : Option Int}
    (h : scanExponent cs = some (e, rest)) : rest.length ≤ cs.length := by
  unfold scanExponent at h
  split at h
  · split at h
    · split at h <;> have := length_scanPower h <;> simp only [List.length_cons] at * <;> omega
    · simp_all
  · simp_all

theorem length_scanNumeral {cs rest : List Char} {x : Numeral}
    (h : scanNumeral cs = some (x, rest)) : rest.length < cs.length := by
  simp only [scanNumeral, Option.bind_eq_bind, Option.bind_eq_some_iff] at h
  obtain ⟨⟨whole, r₁⟩, hw, h⟩ := h
  split at h
  · cases h
  · simp only [Option.bind_eq_some_iff] at h
    obtain ⟨⟨f, r₂⟩, hf, ⟨e, r₃⟩, he, h⟩ := h
    have h₁ := length_scanDigits hw
    have h₂ := length_scanFraction hf
    have h₃ := length_scanExponent he
    have h₀ := length_scanSign cs
    simp only [Option.some.injEq, Prod.mk.injEq] at h h₁ h₂ h₃
    obtain ⟨-, rfl⟩ := h
    omega

theorem length_next? {c : Char} {cs rest : List Char} {t : Token}
    (h : next? c cs = some (t, rest)) : rest.length ≤ cs.length := by
  have literal {letters : List Char} {u : Token} (h : scanLiteral u letters cs = some (t, rest)) :
      rest.length ≤ cs.length := by
    unfold scanLiteral at h
    split at h
    · cases h; simp
    · cases h
  unfold next? at h
  split at h
  any_goals (cases h; exact Nat.le_refl _)
  · unfold scanText at h
    split at h
    · rename_i ps r hp
      have := length_pieces? hp
      cases h
      omega
    · cases h
  any_goals exact literal h
  · simp only [Option.map_eq_some_iff, Prod.mk.injEq] at h
    obtain ⟨⟨x, r⟩, hx, -, rfl⟩ := h
    exact Nat.le_of_lt_succ (length_scanNumeral hx)

/-- The tokens of a text from `cs` on, up to the first place where none can be read, and whether
that is the end; `read` holds the tokens before, last first. -/
def scanFrom (read : List Token) (cs : List Char) : List Token × Bool :=
  match cs with
  | [] => (read.reverse, true)
  | c :: rest =>
    if isBlank c then scanFrom read rest
    else
      match h : next? c rest with
      | some (t, rest') =>
        have : rest'.length ≤ rest.length := length_next? h
        scanFrom (t :: read) rest'
      | none => (read.reverse, false)
termination_by cs.length

/-- The tokens of a text, and whether they are all of it. -/
def scan (text : String) : List Token × Bool :=
  scanFrom [] text.toList

end LedgerCodec.Json
