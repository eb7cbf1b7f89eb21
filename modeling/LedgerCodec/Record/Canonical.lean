import LedgerCodec.Json.Form
import LedgerCodec.Record.Pending
/-!
# Records

A type has a canonical form if its values can be pushed into the entries of a
map and read back from the pending entries of one. `encode` and `decode` are the
two directions on bytes, `decodeValue` reads a value that stands in a field.

A `Record` is a type described by a layout of fields. The description is used
for the wire and for JSON, in both directions.
-/

namespace LedgerCodec

open Wire

/-- Types whose values are maps on the wire. -/
class Canonical (α : Type) where
  push : α → Entries → Entries
  read : Pending → Except Error (α × Pending)

/-- Types whose values can be written as JSON and read back. -/
class JsonForm (α : Type) where
  form : Json.Form α

def entriesOf {α : Type} [Canonical α] (x : α) : Entries :=
  Canonical.push x Entries.empty

/-- The canonical bytes of a value. -/
def encode {α : Type} [Canonical α] (x : α) : Bytes :=
  (entriesOf x).toBytes

/-- Reads a value from the map that the field `key` holds. Every entry of the map must be read. -/
def decodeValue {α : Type} [Canonical α] (key : String) (v : Value) : Except Error α := do
  let pending ← Pending.ofValue key v
  let (x, left) ← Canonical.read pending
  left.finish
  .ok x

/-- The name under which a message speaks of the outermost map. -/
def rootKey : String := "<root>"

/-- Reads a value from bytes. -/
def decode {α : Type} [Canonical α] (bs : Bytes) : Except Error α := do
  decodeValue rootKey (← Wire.parse bs)

def toJson {α : Type} [JsonForm α] (x : α) : Json :=
  JsonForm.form.write x

/-- Reads a value from a JSON text. -/
def ofJson {α : Type} [JsonForm α] (text : String) : Except Json.Problem α :=
  JsonForm.form.parse text

/-! ## Kinds of field -/

/-- How the values of a type stand in a field, on the wire and in JSON. -/
structure Kind (τ : Type) where
  writer : Writer τ
  reader : Reader τ
  form : Json.Form τ

/-- Writes a record inside a record. -/
def Writer.nested {α : Type} [Canonical α] : Writer α where
  write x := Writer.record.write (entriesOf x)
  isZero x := Writer.record.isZero (entriesOf x)

/-- Reads a record inside a record. An absent one reads as the map without entries. -/
def Reader.nested {α : Type} [Canonical α] : Reader α where
  read key v := decodeValue key v
  absent key := decodeValue key (.map [])

/-- Writes a number of a width, as the 64-bit number that it is. -/
def Writer.narrow {τ : Type} (w : Width τ) : Writer τ where
  write n := Writer.uint.write (w.toUInt64 n)
  isZero n := Writer.uint.isZero (w.toUInt64 n)

def Writer.fixed (role : Role) : Writer (Fixed role) where
  write x := (Writer.sized role.size).write x.raw
  isZero x := (Writer.sized role.size).isZero x.raw

def Reader.fixed (role : Role) : Reader (Fixed role) where
  read key v := ((Reader.sized role.size).read key v).map Fixed.mk
  absent key := ((Reader.sized role.size).absent key).map Fixed.mk

namespace Kind

def uint64 : Kind UInt64 := ⟨.uint, .uint, .number .uint64⟩

/-- A number of a width, checked when it is read. -/
def narrow {τ : Type} (w : Width τ) : Kind τ :=
  ⟨.narrow w, .narrow w.bound w.ofNat, .number w⟩

def bool : Kind Bool := ⟨.bool, .bool, .bool⟩

def text : Kind String := ⟨.text, .text, .text⟩

def blob : Kind Bytes := ⟨.blob, .blob, .blob⟩

def fixed (role : Role) : Kind (Fixed role) := ⟨.fixed role, .fixed role, .fixed role⟩

def nested {α : Type} [Canonical α] [JsonForm α] : Kind α := ⟨.nested, .nested, JsonForm.form⟩

def list {τ : Type} (item : Kind τ) : Kind (List τ) :=
  ⟨.list item.writer, .list item.reader, .list item.form⟩

def blobs : Kind (List Bytes) := ⟨.list .blob, .list .blob, .blobs⟩

end Kind

/-! ## Fields -/

structure Field (τ : Type) where
  name : String
  /-- Its key on the wire. -/
  key : String
  kind : Kind τ
  /-- Its value where JSON leaves it out; none if it must be given. -/
  absent : Option τ

/-- The field as a member of a JSON record. -/
def Field.member {τ : Type} (f : Field τ) : Json.Member τ :=
  ⟨f.name, f.kind.form, f.absent⟩

abbrev Fields := Layout Field

/-- A field that JSON may leave out. -/
def Layout.one {τ : Type} [Inhabited τ] (name key : String) (kind : Kind τ) : Layout Field τ :=
  .field ⟨name, key, kind, some default⟩

/-- A field that JSON must give. -/
def Layout.required {τ : Type} (name key : String) (kind : Kind τ) : Layout Field τ :=
  .field ⟨name, key, kind, none⟩

namespace Fields

/-- The keys on the wire, in the order in which they are pushed. -/
def keys {σ : Type} (l : Fields σ) : List String :=
  l.collect fun f => f.key

def members {σ : Type} (l : Fields σ) : Json.Members σ :=
  l.map fun f => f.member

def push : {σ : Type} → Fields σ → σ → Entries → Entries
  | _, .field f, x, es => es.push f.kind.writer f.key x
  | _, .both first second, (x, y), es => push second y (push first x es)

def read : {σ : Type} → Fields σ → Pending → Except Error (σ × Pending)
  | _, .field f, p =>
    match p.read f.kind.reader f.key with
    | (.ok x, left) => .ok (x, left)
    | (.error e, _) => .error e
  | _, .both first second, p => do
    let (x, p) ← read first p
    let (y, p) ← read second p
    .ok ((x, y), p)

end Fields

/-! ## Types with a layout -/

/-- A type whose values are the rows of a layout. -/
class Record (ρ : Type) where
  Row : Type
  name : String
  /-- Whether JSON may hold no keys but its fields. -/
  strict : Bool
  fields : Fields Row
  row : ρ → Row
  ofRow : Row → ρ
  ofRow_row : ∀ x, ofRow (row x) = x
  row_ofRow : ∀ r, row (ofRow r) = r

namespace Record

variable {ρ : Type} [Record ρ]

def json (ρ : Type) [Record ρ] : Json.RecordForm (Row ρ) where
  name := name ρ
  strict := strict ρ
  members := (fields (ρ := ρ)).members

def membersOf (x : ρ) : List (String × Json) :=
  Json.Members.write fields.members (row x)

def form : Json.Form ρ where
  write x := .record (membersOf x)
  read source d := ((json ρ).read source d).map ofRow

instance : Canonical ρ where
  push x := fields.push (row x)
  read p := (fields.read p).map fun (r, left) => (ofRow r, left)

instance : JsonForm ρ := ⟨form⟩

def keys (ρ : Type) [Record ρ] : List String :=
  (fields (ρ := ρ)).keys

end Record

end LedgerCodec
