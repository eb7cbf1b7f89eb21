/-!
# Blank characters

The characters with the property White_Space, and texts without blanks at their
ends. A byte order mark is no blank. Whatever blanks stand around a text without
blanks, `trim` gives that text: `trim_of_padded`.
-/

namespace LedgerCodec.Text

/-- Whether a character has the property White_Space. -/
def isBlank (c : Char) : Bool :=
  let n := c.toNat
  (9 ≤ n && n ≤ 13) || n = 0x20 || n = 0x85 || n = 0xa0 || n = 0x1680 ||
    (0x2000 ≤ n && n ≤ 0x200a) || n = 0x2028 || n = 0x2029 || n = 0x202f || n = 0x205f || n = 0x3000

/-- A text without the blanks at its ends. -/
def trim (s : String) : String :=
  let front := s.toList.dropWhile isBlank
  String.ofList (front.reverse.dropWhile isBlank).reverse

/-- `padded` is a text with blanks in front of it and after it. -/
def Padded (s padded : String) : Prop :=
  ∃ front back, (∀ c ∈ front.toList, isBlank c = true) ∧ (∀ c ∈ back.toList, isBlank c = true) ∧
    padded = front ++ s ++ back

theorem dropWhile_isBlank_of_plain {cs : List Char} (plain : ∀ c ∈ cs, isBlank c = false) :
    cs.dropWhile isBlank = cs := by
  cases cs with
  | nil => rfl
  | cons c cs => rw [List.dropWhile_cons, plain c List.mem_cons_self, if_neg Bool.false_ne_true]

/-- Blanks around a text without blanks are all that is dropped. -/
theorem trim_of_padded {s padded : String} (h : Padded s padded)
    (plain : ∀ c ∈ s.toList, isBlank c = false) : trim padded = s := by
  obtain ⟨front, back, blankFront, blankBack, rfl⟩ := h
  have backwards : ∀ c ∈ back.toList.reverse, isBlank c = true := by
    intro c hc
    exact blankBack c (List.mem_reverse.mp hc)
  have reversed : ∀ c ∈ s.toList.reverse, isBlank c = false := by
    intro c hc
    exact plain c (List.mem_reverse.mp hc)
  -- The blanks in front go first. What is dropped then depends on whether anything is left of `s`.
  have first : (front ++ s ++ back).toList.dropWhile isBlank =
      (s.toList ++ back.toList).dropWhile isBlank := by
    rw [String.toList_append, String.toList_append, List.append_assoc,
      List.dropWhile_append_of_pos blankFront]
  unfold trim
  rw [first]
  cases hs : s.toList with
  | nil =>
    have none : back.toList.dropWhile isBlank = [] := by
      rw [← List.append_nil back.toList, List.dropWhile_append_of_pos blankBack]
      rfl
    rw [List.nil_append, none]
    show String.ofList [] = s
    rw [← hs, String.ofList_toList]
  | cons c cs =>
    have kept : (c :: cs ++ back.toList).dropWhile isBlank = c :: cs ++ back.toList := by
      rw [List.cons_append, List.dropWhile_cons, plain c (by simp [hs]), if_neg Bool.false_ne_true]
    rw [kept, ← hs]
    show String.ofList ((s.toList ++ back.toList).reverse.dropWhile isBlank).reverse = s
    rw [List.reverse_append, List.dropWhile_append_of_pos backwards,
      dropWhile_isBlank_of_plain reversed, List.reverse_reverse, String.ofList_toList]

end LedgerCodec.Text
