import LedgerCodec.Json.Token
/-!
# Writing JSON

The values that this library writes as JSON, their tokens, and the two ways in
which tokens are set out: close together, or one member to a line.
-/

namespace LedgerCodec

/-- A JSON value to be written. -/
inductive Json
  | null
  | bool (b : Bool)
  | number (n : Nat)
  | text (s : String)
  | list (items : List Json)
  | record (members : List (String × Json))
deriving Repr, Inhabited, BEq

namespace Json

/-! ## Tokens -/

mutual

/-- Puts the tokens of a value in front of `written`, which holds those before it, last first. -/
def emit : Json → (written : List Token) → List Token
  | null, written => .null :: written
  | bool b, written => .bool b :: written
  | number n, written => .number (.integer n) :: written
  | text s, written => .text (some s) :: written
  | list items, written => .closeList :: emitItems false items (.openList :: written)
  | record members, written => .closeRecord :: emitMembers false members (.openRecord :: written)
termination_by structural v => v

/-- Puts the tokens of list items in front, a comma before each but the first. -/
def emitItems (comma : Bool) : List Json → (written : List Token) → List Token
  | [], written => written
  | item :: items, written =>
    emitItems true items (item.emit (if comma then .comma :: written else written))
termination_by structural items => items

/-- Puts the tokens of members in front, a comma before each but the first. -/
def emitMembers (comma : Bool) : List (String × Json) → (written : List Token) → List Token
  | [], written => written
  | member :: members, written =>
    emitMembers true members (emitMember member (if comma then .comma :: written else written))
termination_by structural members => members

/-- Puts the tokens of one member in front. -/
def emitMember : String × Json → (written : List Token) → List Token
  | (key, v), written => v.emit (.colon :: .text (some key) :: written)
termination_by structural member => member

end

def tokens (v : Json) : List Token :=
  (v.emit []).reverse

/-! ## Spelling -/

/-- The lowercase hexadecimal digit of a number below 16. -/
def hexDigit (n : Nat) : Char :=
  Char.ofNat (if n < 10 then 48 + n else 87 + n)

/-- A character inside a text. Quotes, backslashes and control characters are escaped. -/
def escape (c : Char) : List Char :=
  if c = '"' then ['\\', '"']
  else if c = '\\' then ['\\', '\\']
  else if c = '\n' then ['\\', 'n']
  else if c = '\r' then ['\\', 'r']
  else if c = '\t' then ['\\', 't']
  else if c.toNat = 8 then ['\\', 'b']
  else if c.toNat = 12 then ['\\', 'f']
  else if c.toNat < 0x20 then
    ['\\', 'u', '0', '0', hexDigit (c.toNat / 16), hexDigit (c.toNat % 16)]
  else [c]

def quote (s : String) : List Char :=
  '"' :: s.toList.flatMap escape ++ ['"']

def Number.chars : Number → List Char
  | .integer (.ofNat n) => Nat.toDigits 10 n
  | .integer (.negSucc n) => '-' :: Nat.toDigits 10 (n + 1)
  | .real negative x => (if negative then ['-'] else []) ++ x.text.toList
  | .beyond => "1e400".toList

def Token.chars : Token → List Char
  | .openList => ['[']
  | .closeList => [']']
  | .openRecord => ['{']
  | .closeRecord => ['}']
  | .comma => [',']
  | .colon => [':']
  | .null => "null".toList
  | .bool true => "true".toList
  | .bool false => "false".toList
  | .number n => n.chars
  | .text (some s) => quote s
  | .text none => "\"\\ud800\"".toList

/-- The text of a value without blanks. -/
def compact (v : Json) : String :=
  String.ofList (v.tokens.flatMap Token.chars)

/-- The start of a line, indented by two blanks for each level. -/
def newLine (level : Nat) : List Char :=
  '\n' :: List.replicate (2 * level) ' '

/-- Where a row of tokens stands on the page. -/
structure Margin where
  /-- How many brackets are open. -/
  level : Nat
  /-- Whether the last token was an opening bracket. -/
  fresh : Bool

/-- What stands for a token on the page, blanks included. -/
def Margin.place (m : Margin) (t : Token) : List Char :=
  match t with
  | .closeList | .closeRecord => (if m.fresh then [] else newLine (m.level - 1)) ++ t.chars
  | .comma => t.chars ++ newLine m.level
  | .colon => t.chars ++ [' ']
  | _ => (if m.fresh then newLine m.level else []) ++ t.chars

/-- Where the page stands after a token. -/
def Margin.after (m : Margin) (t : Token) : Margin :=
  match t with
  | .openList | .openRecord => ⟨m.level + 1, true⟩
  | .closeList | .closeRecord => ⟨m.level - 1, false⟩
  | _ => ⟨m.level, false⟩

/-- Sets tokens out from a margin on; `written` holds the characters before, last first. -/
def setOut (m : Margin) : (written : List Char) → List Token → List Char
  | written, [] => written.reverse
  | written, t :: ts => setOut (m.after t) ((m.place t).reverseAux written) ts

/-- The text of a value with every item and member on a line of its own. -/
def pretty (v : Json) : String :=
  String.ofList (setOut ⟨0, false⟩ [] v.tokens)

end Json

end LedgerCodec
