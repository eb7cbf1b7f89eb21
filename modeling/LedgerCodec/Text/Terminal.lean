import LedgerCodec.Text.Utf8
/-!
# Text for a terminal

Pages and messages are written for a terminal, where control sequences switch
emphasis on and off. `plain` is what they say without it: it leaves out every
control sequence, those that came in with quoted text as well, and every control
character that is no blank. `plain_eq_self` says that other text is kept.
-/

namespace LedgerCodec.Terminal

/-! ## Setting out -/

def emphasize (s : String) : String :=
  "\x1b[1m" ++ s ++ "\x1b[0m"

def spaces (width : Nat) : String :=
  String.ofList (List.replicate width ' ')

/-- Begins every line of a text but the first with spaces. -/
def indent (width : Nat) (s : String) : String :=
  String.ofList (s.toList.flatMap fun c =>
    if c = '\n' then c :: List.replicate width ' ' else [c])

/-! ## Without control sequences -/

/-- What a character is read in. -/
inductive Context
  | text
  /-- A sequence of which the escape character has been read. -/
  | escape
  | longEscape
  | control
  | device
  | deviceParameters
  | deviceIntermediates
  /-- A string with an end of its own. -/
  | string
  | command
deriving DecidableEq, Repr

namespace Context

/-- Whether a character ends a string, by a byte of its UTF-8. -/
def endsString (c : Char) : Bool :=
  (utf8 (String.singleton c)).contains 0x9c

/-- The context after the character that follows an escape character. -/
def afterEscape (c : Char) : Context :=
  if c = '[' then control
  else if c = ']' then command
  else if c = 'P' then device
  else if c = 'X' ∨ c = '^' ∨ c = '_' then string
  else if c.toNat < 0x20 then escape
  else if c.toNat < 0x30 then longEscape
  else if c.toNat < 0x7f then text
  else escape

/-- The context after a character. An escape character begins a sequence everywhere, and the
characters cancel and substitute end one. -/
def next (context : Context) (c : Char) : Context :=
  let n := c.toNat
  if n = 0x1b then escape
  else if n = 0x18 ∨ n = 0x1a then text
  else
    match context with
    | text => text
    | escape => afterEscape c
    | longEscape => if 0x30 ≤ n ∧ n < 0x7f then text else longEscape
    | control => if 0x40 ≤ n ∧ n < 0x7f then text else control
    | device =>
      if n < 0x20 ∨ 0x7f ≤ n then device
      else if n < 0x30 then deviceIntermediates
      else if n < 0x40 then deviceParameters
      else string
    | deviceParameters =>
      if n < 0x20 ∨ 0x7f ≤ n then deviceParameters
      else if n < 0x30 then deviceIntermediates
      else if n < 0x3c then deviceParameters
      else string
    | deviceIntermediates => if n < 0x30 ∨ 0x7f ≤ n then deviceIntermediates else string
    | string => if endsString c then text else string
    | command => if n = 7 then text else command

/-- Whether a character is a control character that counts as a blank. -/
def isBlankControl (c : Char) : Bool :=
  c = '\t' || c = '\n' || c = '\x0c' || c = '\r'

/-- Whether a character is shown. Blank controls are shown inside a sequence as well, but not in
a string. -/
def shows (context : Context) (c : Char) : Bool :=
  match context with
  | text => isBlankControl c || (0x20 ≤ c.toNat && c.toNat ≠ 0x7f)
  | escape | longEscape | control => isBlankControl c
  | _ => false

/-- The context after a character that is shown. A sequence that it stands in goes on, unless the
character is beyond ASCII. -/
def afterShown (context : Context) (c : Char) : Context :=
  if c.toNat < 0x80 then context else text

end Context

/-- What is shown of characters read in a context. Once a character has been shown, those after it
are shown as in plain text, up to the first that is not; `running` says so. -/
def plainFrom (context : Context) (running : Bool) : List Char → List Char
  | [] => []
  | c :: cs =>
    if (running && Context.text.shows c) || context.shows c then
      c :: plainFrom (context.afterShown c) true cs
    else plainFrom (context.next c) false cs

/-- What a text for a terminal says. -/
def plain (s : String) : String :=
  String.ofList (plainFrom .text false s.toList)

theorem plainFrom_text {cs : List Char} (h : ∀ c ∈ cs, Context.text.shows c = true)
    (running : Bool) : plainFrom .text running cs = cs := by
  induction cs generalizing running with
  | nil => rfl
  | cons c cs ih =>
    have hc := h c List.mem_cons_self
    have stays : Context.text.afterShown c = .text := by simp [Context.afterShown]
    simp [plainFrom, hc, stays, ih fun d hd => h d (List.mem_cons_of_mem c hd)]

/-- Text without control characters, blanks aside, is kept. -/
theorem plain_eq_self {s : String} (h : ∀ c ∈ s.toList, Context.text.shows c = true) :
    plain s = s := by
  rw [plain, plainFrom_text h, String.ofList_toList]

end LedgerCodec.Terminal
