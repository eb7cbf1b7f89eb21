import LedgerCodec.Proofs.Json.Printing
/-!
# The lines of a value

`pretty` sets the tokens of a value out one after the other and knows nothing but
how many brackets are open. What comes of it is the page of the value: every item
and member stands on a line of its own, two blanks further in than the brackets
around it, and brackets with nothing in them stay together (`pretty_eq_page`).
-/

namespace LedgerCodec.Json

/-! ## Pages -/

/-- Rows with commas between them, each on a line of its own, and the start of the line for the
closing bracket, which is at a level. -/
def block (level : Nat) : List (List Char) → List Char
  | [] => []
  | row :: rows =>
    newLine (level + 1) ++ row ++ (rows.flatMap fun row => ',' :: newLine (level + 1) ++ row) ++
      newLine level

mutual

/-- What stands for a value that begins on a line of a level. -/
def page (level : Nat) : Json → List Char
  | null => Token.null.chars
  | bool b => (Token.bool b).chars
  | number n => Nat.toDigits 10 n
  | text s => quote s
  | list items => '[' :: block level (pageItems (level + 1) items) ++ [']']
  | record members => '{' :: block level (pageMembers (level + 1) members) ++ ['}']
termination_by structural v => v

/-- The rows of list items. -/
def pageItems (level : Nat) : List Json → List (List Char)
  | [] => []
  | item :: items => item.page level :: pageItems level items
termination_by structural items => items

/-- The rows of members. -/
def pageMembers (level : Nat) : List (String × Json) → List (List Char)
  | [] => []
  | member :: members => pageMember level member :: pageMembers level members
termination_by structural members => members

/-- The row of one member. -/
def pageMember (level : Nat) : String × Json → List Char
  | (key, v) => quote key ++ [':', ' '] ++ v.page level
termination_by structural member => member

end

theorem pageItems_eq (level : Nat) (items : List Json) :
    pageItems level items = items.map (page level) := by
  induction items with
  | nil => rfl
  | cons item items ih => rw [pageItems, List.map_cons, ih]

theorem pageMembers_eq (level : Nat) (members : List (String × Json)) :
    pageMembers level members = members.map (pageMember level) := by
  induction members with
  | nil => rfl
  | cons member members ih => rw [pageMembers, List.map_cons, ih]

/-! ## Setting out tokens gives the page -/

/-- What begins the next row: a line of its own, if it is the first after an opening bracket. -/
def Margin.lead (m : Margin) : List Char :=
  if m.fresh then newLine m.level else []

section Marks

variable (m : Margin) (ts : List Token)

theorem spread_open {opening : Token} (opens : opening = .openList ∨ opening = .openRecord) :
    spread m (opening :: ts) = m.lead ++ opening.chars ++ spread ⟨m.level + 1, true⟩ ts := by
  rcases opens with rfl | rfl <;> rfl

theorem spread_close {closing : Token} (closes : closing = .closeList ∨ closing = .closeRecord) :
    spread m (closing :: ts) = (if m.fresh then [] else newLine (m.level - 1)) ++ closing.chars ++
      spread ⟨m.level - 1, false⟩ ts := by
  rcases closes with rfl | rfl <;> rfl

theorem spread_comma :
    spread m (.comma :: ts) = ',' :: newLine m.level ++ spread ⟨m.level, false⟩ ts :=
  rfl

theorem spread_key (key : String) : spread m (.text (some key) :: .colon :: ts) =
    m.lead ++ quote key ++ ([':', ' '] ++ spread ⟨m.level, false⟩ ts) :=
  rfl

end Marks

/-- Tokens stand as a row on every line of a level, begun or not, and leave that line behind. -/
def SetOutAs (ts : List Token) (level : Nat) (row : List Char) : Prop :=
  ∀ fresh rest, spread ⟨level, fresh⟩ (ts ++ rest) =
    Margin.lead ⟨level, fresh⟩ ++ row ++ spread ⟨level, false⟩ rest

variable {level : Nat}

section Brackets

variable {α : Type} {tokens : α → List Token} {row : α → List Char} {xs : List α}
  {opening closing : Token}

/-- After a first row, each comma is followed by a new line, and the closing bracket stands on one
of its own. -/
theorem spread_more (closes : closing = .closeList ∨ closing = .closeRecord)
    (rows : ∀ x ∈ xs, SetOutAs (tokens x) (level + 1) (row x)) (rest : List Token) :
    spread ⟨level + 1, false⟩ ((xs.flatMap fun x => .comma :: tokens x) ++ closing :: rest) =
      ((xs.map row).flatMap fun row => ',' :: newLine (level + 1) ++ row) ++ newLine level ++
        (closing.chars ++ spread ⟨level, false⟩ rest) := by
  induction xs with
  | nil =>
    rw [List.flatMap_nil, List.nil_append, spread_close _ _ closes]
    simp
  | cons x xs ih =>
    obtain ⟨first, others⟩ := List.forall_mem_cons.mp rows
    rw [List.flatMap_cons, List.append_assoc, List.cons_append, spread_comma, first, ih others]
    simp [Margin.lead]

/-- Rows between brackets make a block. -/
theorem setOutAs_brackets (opens : opening = .openList ∨ opening = .openRecord)
    (closes : closing = .closeList ∨ closing = .closeRecord)
    (rows : ∀ x ∈ xs, SetOutAs (tokens x) (level + 1) (row x)) :
    SetOutAs (opening :: separated tokens xs ++ [closing]) level
      (opening.chars ++ block level (xs.map row) ++ closing.chars) := by
  intro fresh rest
  rw [List.append_assoc, List.cons_append, spread_open _ _ opens, List.singleton_append]
  cases xs with
  | nil =>
    rw [separated, List.nil_append, spread_close _ _ closes]
    simp [block, Margin.lead]
  | cons x xs =>
    obtain ⟨first, others⟩ := List.forall_mem_cons.mp rows
    rw [separated, List.append_assoc (tokens x), first, spread_more closes others]
    simp [block, Margin.lead]

end Brackets

theorem setOutAs_member {key : String} {v : Json} (value : SetOutAs v.tokens level (v.page level)) :
    SetOutAs (memberTokens (key, v)) level (pageMember level (key, v)) := by
  intro fresh rest
  rw [memberTokens, List.cons_append, List.cons_append, spread_key, value, pageMember]
  simp [Margin.lead]

mutual

theorem setOutAs_value (v : Json) (level : Nat) : SetOutAs v.tokens level (v.page level) := by
  cases v with
  | list items =>
    rw [tokens_list, page, pageItems_eq]
    exact setOutAs_brackets (.inl rfl) (.inl rfl) (setOutAs_items items (level + 1))
  | record members =>
    rw [tokens_record, page, pageMembers_eq]
    exact setOutAs_brackets (.inr rfl) (.inr rfl) (setOutAs_members members (level + 1))
  | _ => exact fun fresh rest => rfl

theorem setOutAs_items (items : List Json) (level : Nat) :
    ∀ v ∈ items, SetOutAs v.tokens level (v.page level) := by
  cases items with
  | nil => exact List.forall_mem_nil _
  | cons item items =>
    exact List.forall_mem_cons.mpr ⟨setOutAs_value item level, setOutAs_items items level⟩

theorem setOutAs_members (members : List (String × Json)) (level : Nat) :
    ∀ m ∈ members, SetOutAs (memberTokens m) level (pageMember level m) := by
  cases members with
  | nil => exact List.forall_mem_nil _
  | cons member members =>
    cases member with
    | mk key v =>
      exact List.forall_mem_cons.mpr
        ⟨setOutAs_member (setOutAs_value v level), setOutAs_members members level⟩

end

/-- The text that is printed is the page of the value. -/
theorem pretty_eq_page (v : Json) : v.pretty = String.ofList (v.page 0) := by
  have set := setOutAs_value v 0 false []
  rw [List.append_nil] at set
  rw [pretty, setOut_eq, set]
  simp [Margin.lead, spread]

example :
    (record [("a", list [number 1, null]), ("b", record [("c", list [])])]).pretty =
      "\x7b\n" ++
      "  \"a\": [\n" ++
      "    1,\n" ++
      "    null\n" ++
      "  ],\n" ++
      "  \"b\": \x7b\n" ++
      "    \"c\": []\n" ++
      "  \x7d\n" ++
      "\x7d" := by
  decide +kernel

end LedgerCodec.Json
