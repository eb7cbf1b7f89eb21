import LedgerCodec.Json.Problem
import LedgerCodec.Json.Tree
import LedgerCodec.Number.Width
import LedgerCodec.Record.Layout
/-!
# Types in JSON

A `Form` says how the values of a type are written as JSON and read back. Reading
follows the order of the text: the first value that does not fit, or the first
syntax error, is the problem reported. Records are read from their members by
name, or from a list of their fields in order.
-/

namespace LedgerCodec.Json

/-- Where a document comes from. Items beyond the last field of a record are a syntax error in a
text, and a wrong length in a value that has been read before. -/
inductive Source
  | text
  /-- A value that has been read to its end and put aside. -/
  | buffer
deriving DecidableEq

/-- How the values of a type stand in JSON. -/
structure Form (τ : Type) where
  write : τ → Json
  read : Source → Doc → Except Problem τ

namespace Form

/-- Reads a text that holds one value. -/
def parse {τ : Type} (f : Form τ) (text : String) : Except Problem τ := do
  let (doc, whole) := Doc.parse text
  let x ← f.read .text doc
  if whole then .ok x else .error .malformed

/-! ## Plain values -/

/-- Reads an integer below a bound. -/
def readNat (bound : Nat) (expected : String) : Doc → Except Problem Nat
  | .number (.integer n) =>
    if 0 ≤ n ∧ n < bound then .ok n.toNat else .error (.invalidValue n expected)
  | d => .error (d.misfit expected)

def number {τ : Type} (w : Width τ) : Form τ where
  write n := .number (w.toUInt64 n).toNat
  read _ d := (readNat w.bound w.name d).map w.ofNat

def bool : Form Bool where
  write := .bool
  read
    | _, .bool b => .ok b
    | _, d => .error (d.misfit "a boolean")

def readText (expected : String) : Doc → Except Problem String
  | .text (some s) => .ok s
  | d => .error (d.misfit expected)

def text : Form String where
  write := .text
  read _ d := readText "a string" d

/-- Reads the bytes that a hexadecimal text shows. -/
def readHex (s : String) : Except Problem Bytes :=
  (Hex.decode s).mapError .notHex

/-- A byte string, in hexadecimal. -/
def blob : Form Bytes where
  write bs := .text (Hex.encode bs)
  read _ d := do readHex (← readText "a hex encoded string" d)

/-- A value of fixed size, in hexadecimal. -/
def fixed (role : Role) : Form (Fixed role) where
  write x := .text (Hex.encode x.bytes)
  read _ d := do
    let bs ← readHex (← readText "a string" d)
    match Fixed.ofBytes? role bs with
    | some x => .ok x
    | none => .error (.wrongSize role bs.length)

/-! ## Lists -/

/-- Reads a list to its end. -/
def readList {τ : Type} (item : Form τ) (source : Source) : Doc → Except Problem (List τ)
  | .list items ending => do
    let xs ← items.mapM (item.read source)
    if ending.isClosed then .ok xs else .error .malformed
  | d => .error (d.misfit "a sequence")

def list {τ : Type} (item : Form τ) : Form (List τ) where
  write xs := .list (xs.map item.write)
  read source d := readList item source d

/-- A list of byte strings. All of its texts are read before the first one is taken as
hexadecimal. -/
def blobs : Form (List Bytes) where
  write xs := .list (xs.map blob.write)
  read source d := do (← readList text source d).mapM readHex

/-! ## Choices -/

/-- The type with a tag. -/
def readTag (s : String) : Except Problem TxnType :=
  match TxnType.ofTag? s with
  | some t => .ok t
  | none => .error (.unknownVariant s (TxnType.declared.map TxnType.tag))

/-- Reads a type from its tag, or from a record whose one member has the tag as its key and holds
nothing. -/
def readType : Doc → Except Problem TxnType
  | .text (some s) => readTag s
  | .record ((some key, d) :: more) ending => do
    let t ← readTag key
    match d with
    | .null => if more.isEmpty && ending.isClosed then .ok t else .error .malformed
    | d => .error (d.misfit "unit")
  | _ => .error .malformed

def type : Form TxnType where
  write t := .text t.tag
  read _ d := readType d

/-- A transaction type that need not be given. -/
def optionalType : Form (Option TxnType) where
  write
    | some t => .text t.tag
    | none => .null
  read
    | _, .null => .ok none
    | _, d => (readType d).map some

end Form

/-! ## Records -/

structure Member (τ : Type) where
  name : String
  form : Form τ
  /-- Its value where it is absent; none if it must be present. -/
  absent : Option τ

abbrev Members := Layout Member

namespace Members

/-- The keys, in order. -/
def names {σ : Type} (l : Members σ) : List String :=
  l.collect fun m => m.name

/-- The members of a row, in order. -/
def write : {σ : Type} → Members σ → σ → List (String × Json)
  | _, .field m, x => [(m.name, m.form.write x)]
  | _, .both first second, (x, y) => write first x ++ write second y

/-- A value for each field that has been read. -/
def Slots : {σ : Type} → Members σ → Type
  | τ, .field _ => Option τ
  | _, .both first second => Slots first × Slots second

/-- No field read. -/
def noSlots : {σ : Type} → (l : Members σ) → Slots l
  | _, .field _ => none
  | _, .both first second => (noSlots first, noSlots second)

/-- Reads the value of the field with a key; none if there is no such field. -/
def fill (source : Source) (key : String) (d : Doc) :
    {σ : Type} → (l : Members σ) → Slots l → Option (Except Problem (Slots l))
  | _, .field m, slot =>
    if m.name = key then
      match slot with
      | some _ => some (.error (.duplicateField key))
      | none => some ((m.form.read source d).map some)
    else none
  | _, .both first second, slots =>
    let (s, t) : Slots first × Slots second := slots
    match fill source key d first s with
    | some result => some (result.map fun s => (s, t))
    | none => (fill source key d second t).map fun result => result.map fun t => (s, t)

/-- The row, once all members have been read. -/
def row : {σ : Type} → (l : Members σ) → Slots l → Except Problem σ
  | _, .field m, slot =>
    match slot, m.absent with
    | some x, _ => .ok x
    | none, some x => .ok x
    | none, none => .error (.missingField m.name)
  | _, .both first second, slots => do
    let (s, t) : Slots first × Slots second := slots
    let x ← row first s
    let y ← row second t
    .ok (x, y)

/-- Reads fields from the items of a list in order, from the field `index` on, and gives the items
left. `expected` names the whole record. -/
def rowOfItems (source : Source) (expected : String) (ending : Ending) :
    {σ : Type} → (index : Nat) → Members σ → List Doc → Except Problem (σ × List Doc)
  | _, _, .field m, item :: items => do
    let x ← m.form.read source item
    .ok (x, items)
  | _, index, .field m, [] =>
    if ending.isClosed then
      match m.absent with
      | some x => .ok (x, [])
      | none => .error (.invalidLength index expected)
    else .error .malformed
  | _, index, .both first second, items => do
    let (x, items) ← rowOfItems source expected ending index first items
    let (y, items) ← rowOfItems source expected ending (index + first.size) second items
    .ok ((x, y), items)

end Members

/-- How a record stands in JSON. -/
structure RecordForm (σ : Type) where
  name : String
  /-- Whether a key that is no field is refused; otherwise its value is skipped. -/
  strict : Bool
  members : Members σ

namespace RecordForm

variable {σ : Type}

/-- Takes one member of a record. -/
def readMember (r : RecordForm σ) (source : Source) (slots : Members.Slots r.members) :
    Option String × Doc → Except Problem (Members.Slots r.members)
  | (none, _) => .error .malformed
  | (some key, d) =>
    match Members.fill source key d r.members slots with
    | some result => result
    | none =>
      if r.strict then .error (.unknownField key (Members.names r.members))
      else if d.isComplete then .ok slots
      else .error .malformed

/-- Reads a row from its members by name. -/
def readMembers (r : RecordForm σ) (source : Source) (members : List (Option String × Doc))
    (ending : Ending) : Except Problem σ := do
  let slots ← members.foldlM (r.readMember source) (Members.noSlots r.members)
  if ending.isClosed then Members.row r.members slots else .error .malformed

/-- Reads a row from a list of its fields in order. -/
def readItems (r : RecordForm σ) (source : Source) (items : List Doc) (ending : Ending) :
    Except Problem σ := do
  let size := r.members.size
  let expected := "struct " ++ r.name ++ " with " ++ elements size
  let (x, left) ← Members.rowOfItems source expected ending 0 r.members items
  match source, left, ending with
  | _, [], .closed => .ok x
  | .buffer, _ :: _, _ => .error (.invalidLength items.length (elements size ++ " in sequence"))
  | _, _, _ => .error .malformed

def read (r : RecordForm σ) (source : Source) : Doc → Except Problem σ
  | .record members ending => r.readMembers source members ending
  | .list items ending => r.readItems source items ending
  | d => .error (d.misfit ("struct " ++ r.name))

end RecordForm

end LedgerCodec.Json
