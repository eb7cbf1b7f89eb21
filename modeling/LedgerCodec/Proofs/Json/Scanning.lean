import LedgerCodec.Json.Tree
/-!
# Spelled tokens are scanned back

A text spells a row of tokens if it has their characters in order, with blanks
between them, and no number runs into what follows it: `Spells`. Scanning such a
text gives the tokens: `scan_of_spells`. Texts are spelled with escapes and
numbers in decimal, so both are read back here first.
-/

namespace LedgerCodec.Json

/-! ## Texts -/

/-- The piece that a character is spelled as. -/
def pieceOf (c : Char) : Piece :=
  if c.toNat < 0x20 ∧ c ≠ '\n' ∧ c ≠ '\r' ∧ c ≠ '\t' ∧ c.toNat ≠ 8 ∧ c.toNat ≠ 12 then
    .unit c.toNat
  else .char c

theorem pieces?_plain {c : Char} (quote : c ≠ '"') (escape : c ≠ '\\') (visible : ¬ c.toNat < 0x20)
    (read : List Piece) (rest : List Char) :
    pieces? read (c :: rest) = pieces? (.char c :: read) rest := by
  rw [pieces?.eq_def]
  split <;> rename_i h <;> cases h
  · exact absurd rfl quote
  · exact absurd rfl escape
  · exact absurd rfl escape
  · exact absurd rfl escape
  · rw [if_neg visible]

theorem unit?_hexDigit {n : Nat} (h : n < 0x20) :
    unit? '0' '0' (hexDigit (n / 16)) (hexDigit (n % 16)) = some n := by
  have all : ∀ n < 0x20, unit? '0' '0' (hexDigit (n / 16)) (hexDigit (n % 16)) = some n := by
    decide +kernel
  exact all n h

/-- A character is spelled as one piece. -/
theorem pieces?_escape (c : Char) (read : List Piece) (rest : List Char) :
    pieces? read (escape c ++ rest) = pieces? (pieceOf c :: read) rest := by
  have known {n : Nat} (h : c.toNat = n) : c = Char.ofNat n := by
    rw [← h, Char.ofNat_toNat]
  -- The cases are those of `escape`, in its order.
  by_cases quote : c = '"'
  · subst quote; rfl
  by_cases backslash : c = '\\'
  · subst backslash; rfl
  by_cases newline : c = '\n'
  · subst newline; rfl
  by_cases carriage : c = '\r'
  · subst carriage; rfl
  by_cases tab : c = '\t'
  · subst tab; rfl
  by_cases backspace : c.toNat = 8
  · rw [known backspace]; rfl
  by_cases feed : c.toNat = 12
  · rw [known feed]; rfl
  by_cases control : c.toNat < 0x20
  · have spelled : escape c =
        ['\\', 'u', '0', '0', hexDigit (c.toNat / 16), hexDigit (c.toNat % 16)] := by
      simp [escape, quote, backslash, newline, carriage, tab, backspace, feed, control]
    have piece : pieceOf c = .unit c.toNat := by
      simp [pieceOf, newline, carriage, tab, backspace, feed, control]
    simp [spelled, piece, pieces?, unit?_hexDigit control]
  · have plain : escape c = [c] := by
      simp [escape, quote, backslash, newline, carriage, tab, backspace, feed, control]
    have piece : pieceOf c = .char c := by simp [pieceOf, control]
    rw [plain, piece]
    exact pieces?_plain quote backslash control read rest

theorem pieces?_text (cs : List Char) (read : List Piece) (rest : List Char) :
    pieces? read (cs.flatMap escape ++ '"' :: rest) = some (read.reverse ++ cs.map pieceOf, rest) := by
  induction cs generalizing read with
  | nil => simp [pieces?]
  | cons c cs ih =>
    rw [List.flatMap_cons, List.append_assoc, pieces?_escape, ih]
    simp

theorem joinPieces_text (cs read : List Char) :
    joinPieces read (cs.map pieceOf) = some (read.reverse ++ cs) := by
  induction cs generalizing read with
  | nil => simp [joinPieces]
  | cons c cs ih =>
    have one : joinPieces read (pieceOf c :: cs.map pieceOf) =
        joinPieces (c :: read) (cs.map pieceOf) := by
      unfold pieceOf
      split
      · rename_i control
        have low : c.toNat < 0xd800 := by omega
        rw [joinPieces.eq_def]
        simp only [low, true_or, if_true, Char.ofNat_toNat]
      · rw [joinPieces]
    rw [List.map_cons, one, ih]
    simp

theorem scanText_quote (s : String) (rest : List Char) :
    scanText (s.toList.flatMap escape ++ '"' :: rest) = some (.text (some s), rest) := by
  rw [scanText, pieces?_text]
  simp [joinPieces_text]

/-! ## Numbers -/

theorem absorb_eq {s : Nat} {ds : List Char} (h : Nat.ofDigitChars 10 ds s < UInt64.size) :
    absorb s ds = (Nat.ofDigitChars 10 ds s, 0) := by
  induction ds generalizing s with
  | nil => rfl
  | cons d ds ih =>
    rw [Nat.ofDigitChars_cons] at h ⊢
    have same : 10 * s + (d.toNat - '0'.toNat) = s * 10 + (d.toNat - 48) := by
      rw [Nat.mul_comm]
      rfl
    rw [same] at h ⊢
    -- What has been read so far is at most what will have been read in the end.
    have small : s * 10 + (d.toNat - 48) < UInt64.size := by
      rw [Nat.ofDigitChars_eq_ofDigitChars_zero] at h
      have power : 0 < 10 ^ ds.length := Nat.pow_pos (by decide)
      have := Nat.le_mul_of_pos_left (s * 10 + (d.toNat - 48)) power
      omega
    rw [absorb]
    simp only [small, if_true]
    exact ih h

/-- No number but zero begins with the digit zero. -/
theorem eq_zero_of_head?_toDigits {n : Nat} (h : (Nat.toDigits 10 n).head? = some '0') : n = 0 := by
  induction n using Nat.strongRecOn with
  | _ n ih =>
    by_cases small : n < 10
    · rw [Nat.toDigits_of_lt_base small] at h
      have all : ∀ n < 10, Nat.digitChar n = '0' → n = 0 := by decide
      exact all n small (Option.some.inj h)
    · have ten : 10 ≤ n := Nat.not_lt.mp small
      rw [Nat.toDigits_of_base_le (by decide) ten] at h
      -- The first digit is that of the number without its last one.
      have tenth : (Nat.toDigits 10 (n / 10)).head? = some '0' := by
        cases front : Nat.toDigits 10 (n / 10) with
        | nil => exact absurd front Nat.toDigits_ne_nil
        | cons c cs => simpa [front] using h
      have := ih (n / 10) (by omega) tenth
      omega

/-- What follows a number does not go on with it. -/
def EndsNumber (rest : List Char) : Prop :=
  ∀ c ∈ rest.head?, c.isDigit = false ∧ c ≠ '.' ∧ c ≠ 'e' ∧ c ≠ 'E'

theorem scanDigits_append {ds rest : List Char} (digits : ∀ c ∈ ds, c.isDigit = true)
    (some : ds ≠ []) (ends : EndsNumber rest) : scanDigits (ds ++ rest) = .some (ds, rest) := by
  have none : rest.takeWhile Char.isDigit = [] ∧ rest.dropWhile Char.isDigit = rest := by
    cases rest with
    | nil => exact ⟨rfl, rfl⟩
    | cons c cs =>
      have other := (ends c rfl).1
      simp [other]
  simp [scanDigits, List.takeWhile_append_of_pos digits, List.dropWhile_append_of_pos digits,
    none, some]

theorem scanFraction_of_ends {rest : List Char} (ends : EndsNumber rest) :
    scanFraction rest = some (none, rest) := by
  cases rest with
  | nil => rfl
  | cons c cs =>
    have other := (ends c rfl).2.1
    unfold scanFraction
    split <;> simp_all

theorem scanExponent_of_ends {rest : List Char} (ends : EndsNumber rest) :
    scanExponent rest = some (none, rest) := by
  cases rest with
  | nil => rfl
  | cons c cs =>
    have other := (ends c rfl).2.2
    simp [scanExponent, other]

/-- An integer that 64 bits hold is scanned from its decimal digits. -/
theorem scanNumeral_toDigits {n : Nat} (small : n < UInt64.size) {rest : List Char}
    (ends : EndsNumber rest) : ∃ x : Numeral,
      scanNumeral (Nat.toDigits 10 n ++ rest) = some (x, rest) ∧ x.value = .integer n := by
  have digits : ∀ c ∈ Nat.toDigits 10 n, c.isDigit = true :=
    fun c hc => Nat.isDigit_of_mem_toDigits (by decide) (by decide) hc
  have unsigned : scanSign (Nat.toDigits 10 n ++ rest) = (false, Nat.toDigits 10 n ++ rest) := by
    cases front : Nat.toDigits 10 n with
    | nil => exact absurd front Nat.toDigits_ne_nil
    | cons c cs =>
      have digit := digits c (by simp [front])
      unfold scanSign
      split <;> simp_all
  -- Leading zeros are refused, but no number has them.
  have noZero : ¬ ((Nat.toDigits 10 n).head? = some '0' ∧ (Nat.toDigits 10 n).length ≠ 1) := by
    rintro ⟨zero, long⟩
    rw [eq_zero_of_head?_toDigits zero] at long
    exact long rfl
  refine ⟨⟨false, Nat.toDigits 10 n, none, none⟩, ?_, ?_⟩
  · rw [scanNumeral, unsigned]
    simp [scanDigits_append digits Nat.toDigits_ne_nil ends, noZero, scanFraction_of_ends ends,
      scanExponent_of_ends ends]
  · have whole : absorb 0 (Nat.toDigits 10 n) = (n, 0) := by
      have := @absorb_eq 0 (Nat.toDigits 10 n)
      rw [Nat.ofDigitChars_ten_toDigits] at this
      exact this small
    simp [Numeral.value, whole]

/-! ## Tokens -/

/-- Whether a token is a number. -/
def Token.isNumber : Token → Bool
  | .number _ => true
  | _ => false

/-- The tokens that values are written with: integers below 2^64, texts that are whole, and
whatever is neither. -/
def Token.Printed : Token → Prop
  | .number (.integer n) => 0 ≤ n ∧ n < UInt64.size
  | .number _ => False
  | .text s => s.isSome = true
  | _ => True

theorem next?_digit {c : Char} (digit : c.isDigit = true) (rest : List Char) :
    next? c rest = (scanNumeral (c :: rest)).map fun (x, rest) => (.number x.value, rest) := by
  unfold next?
  split <;> first | rfl | exact absurd digit (by decide)

theorem next?_literal {t : Token} {letters rest : List Char} :
    scanLiteral t letters (letters ++ rest) = some (t, rest) := by
  simp [scanLiteral]

/-- A token is the next one in a text that begins with its characters. -/
theorem next?_chars {t : Token} (printed : t.Printed) {rest : List Char}
    (ends : t.isNumber = true → EndsNumber rest) :
    ∃ c cs, t.chars = c :: cs ∧ isBlank c = false ∧ next? c (cs ++ rest) = some (t, rest) := by
  cases t with
  | number x =>
    cases x with
    | integer n =>
      obtain ⟨nonneg, small⟩ := printed
      obtain ⟨n, rfl⟩ := Int.eq_ofNat_of_zero_le nonneg
      obtain ⟨x, scanned, value⟩ := scanNumeral_toDigits (n := n) (by omega) (ends rfl)
      cases front : Nat.toDigits 10 n with
      | nil => exact absurd front Nat.toDigits_ne_nil
      | cons c cs =>
        have met : c ∈ Nat.toDigits 10 n := by
          rw [front]
          exact List.mem_cons_self
        have digit : c.isDigit = true := Nat.isDigit_of_mem_toDigits (by decide) (by decide) met
        refine ⟨c, cs, front, ?_, ?_⟩
        -- No blank is a digit.
        · have blank : isBlank c = true → c.isDigit = false := by
            simp only [isBlank, Bool.or_eq_true, decide_eq_true_eq]
            rintro (((rfl | rfl) | rfl) | rfl) <;> decide
          exact Bool.eq_false_iff.mpr fun h => by rw [blank h] at digit; cases digit
        · rw [next?_digit digit, ← List.cons_append, ← front, scanned]
          simp [value]
    | real negative x => exact printed.elim
    | beyond => exact printed.elim
  | text s =>
    obtain ⟨s, rfl⟩ := Option.isSome_iff_exists.mp printed
    refine ⟨'"', s.toList.flatMap escape ++ ['"'], rfl, by decide, ?_⟩
    rw [List.append_assoc]
    exact scanText_quote s rest
  | null => exact ⟨'n', _, rfl, by decide, next?_literal⟩
  | bool b =>
    cases b
    · exact ⟨'f', _, rfl, by decide, next?_literal⟩
    · exact ⟨'t', _, rfl, by decide, next?_literal⟩
  | _ => exact ⟨_, _, rfl, by decide, rfl⟩

/-! ## Whole texts -/

/-- The text has the characters of the tokens, with blanks in front of each and at the end. -/
inductive Spells : List Token → List Char → Prop
  | nil {blanks : List Char} (blank : ∀ c ∈ blanks, isBlank c = true) : Spells [] blanks
  | cons {t : Token} {ts : List Token} {blanks rest : List Char}
      (blank : ∀ c ∈ blanks, isBlank c = true) (printed : t.Printed)
      (ends : t.isNumber = true → EndsNumber rest) (more : Spells ts rest) :
      Spells (t :: ts) (blanks ++ (t.chars ++ rest))

theorem scanFrom_blanks {blanks : List Char} (blank : ∀ c ∈ blanks, isBlank c = true)
    (read : List Token) (rest : List Char) :
    scanFrom read (blanks ++ rest) = scanFrom read rest := by
  induction blanks with
  | nil => rfl
  | cons c blanks ih =>
    rw [List.cons_append, scanFrom, if_pos (blank c List.mem_cons_self)]
    exact ih fun c hc => blank c (List.mem_cons_of_mem _ hc)

theorem scanFrom_token {t : Token} (printed : t.Printed) {rest : List Char}
    (ends : t.isNumber = true → EndsNumber rest) (read : List Token) :
    scanFrom read (t.chars ++ rest) = scanFrom (t :: read) rest := by
  obtain ⟨c, cs, chars, visible, next⟩ := next?_chars printed ends
  rw [chars, List.cons_append, scanFrom, if_neg (by simp [visible])]
  split
  · rename_i found
    rw [next] at found
    cases found
    rfl
  · rename_i missing
    rw [next] at missing
    cases missing

theorem scanFrom_of_spells {ts : List Token} {cs : List Char} (h : Spells ts cs)
    (read : List Token) : scanFrom read cs = (read.reverse ++ ts, true) := by
  induction h generalizing read with
  | nil blank =>
    have := scanFrom_blanks blank read []
    rw [List.append_nil] at this
    rw [this, scanFrom, List.append_nil]
  | cons blank printed ends _ ih =>
    rw [scanFrom_blanks blank, scanFrom_token printed ends, ih, List.reverse_cons, List.append_assoc]
    rfl

/-- A text that spells tokens is scanned as these. -/
theorem scan_of_spells {ts : List Token} {text : String} (h : Spells ts text.toList) :
    scan text = (ts, true) :=
  scanFrom_of_spells h []

end LedgerCodec.Json
