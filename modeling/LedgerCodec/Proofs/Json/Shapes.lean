import LedgerCodec.Proofs.Json.Accepted
/-!
# Keys that are no fields

A `Shape` says where the values of a type are records, and which keys these have.
A document strays from a shape if a strict record in it, at whatever depth, has
another key; a form spares a shape if it reads no such document. A record that is
not strict passes over other keys instead: `RecordForm.read_insert`.
-/

namespace LedgerCodec.Json

/-- The records that the values of a type consist of. -/
inductive Shape
  | plain
  | list (item : Shape)
  | record (strict : Bool) (names : List String) (inside : String → Shape)

namespace Shape

/-- A key that is no field stands in a strict record, in the document or inside it. -/
inductive Strays : Shape → Doc → Prop
  /-- In the record itself. -/
  | key {strict : Bool} {names : List String} {inside : String → Shape}
    {members : List (Option String × Doc)} {ending : Ending} {key : String} {d : Doc}
    (refused : strict = true) (met : (some key, d) ∈ members) (other : key ∉ names) :
    Strays (.record strict names inside) (.record members ending)
  /-- In a field of a record. -/
  | field {strict : Bool} {names : List String} {inside : String → Shape}
    {members : List (Option String × Doc)} {ending : Ending} {key : String} {d : Doc}
    (met : (some key, d) ∈ members) (known : key ∈ names) (strays : Strays (inside key) d) :
    Strays (.record strict names inside) (.record members ending)
  /-- In a field of a record that is given as a list. -/
  | place {strict : Bool} {names : List String} {inside : String → Shape} {items : List Doc}
    {ending : Ending} {key : String} {d : Doc} (met : (key, d) ∈ names.zip items)
    (strays : Strays (inside key) d) : Strays (.record strict names inside) (.list items ending)
  /-- In an item of a list. -/
  | item {item : Shape} {items : List Doc} {ending : Ending} {d : Doc} (met : d ∈ items)
    (strays : Strays item d) : Strays (.list item) (.list items ending)

/-- A key is passed over: the outermost record is not strict and does not have it. -/
def Skips : Shape → String → Prop
  | record false names _, key => key ∉ names
  | _, _ => False

theorem not_strays_plain (d : Doc) : ¬ Strays .plain d :=
  nofun

end Shape

namespace Form

variable {τ : Type} {f : Form τ} {s : Shape}

/-- No document that strays from a shape is read. -/
def Spares (f : Form τ) (s : Shape) : Prop :=
  ∀ (source : Source) (d : Doc) (x : τ), f.read source d = .ok x → ¬ s.Strays d

theorem spares_plain (f : Form τ) : f.Spares .plain :=
  fun _ d _ _ => Shape.not_strays_plain d

theorem Spares.list (h : f.Spares s) : (Form.list f).Spares (.list s) := by
  intro source d xs read strays
  cases strays with
  | item met strays =>
    obtain ⟨ys, items, -⟩ := bind_eq_ok.mp read
    obtain ⟨x, read⟩ := ok_of_mapM_ok items _ met
    exact h source _ x read strays

end Form

theorem Members.all_spares_plain {σ : Type} (l : Members σ) :
    l.All fun m => m.form.Spares .plain := by
  induction l with
  | field m => exact m.form.spares_plain
  | both first second ih₁ ih₂ => exact ⟨ih₁, ih₂⟩

namespace RecordForm

open Members

variable {σ : Type} {r : RecordForm σ} {source : Source} {d : Doc} {x : σ}

/-- The shape of a record. -/
def shape (r : RecordForm σ) (inside : String → Shape) : Shape :=
  .record r.strict (names r.members) inside

/-- A record is read only where no record in its fields has keys that it must not have, and if it
is strict, has none itself. -/
theorem not_strays {inside : String → Shape} (distinct : (names r.members).Nodup)
    (spares : r.members.All fun m => m.form.Spares (inside m.name))
    (read : r.read source d = .ok x) : ¬ (r.shape inside).Strays d := by
  obtain ⟨es, gives, admits, given⟩ := (read_eq_ok distinct).mp read
  -- A value under a key is read by the field with this key, and does not stray.
  have fields {key : String} {d : Doc} (he : (key, d) ∈ es) (known : key ∈ names r.members)
      (strays : (inside key).Strays d) : False := by
    have laws := (spares.allOf x).and (reads_of_given admits given)
    refine laws.of_mem_collect known fun m y name h => ?_
    have name : m.name = key := name
    subst name
    exact h.1 source d y (h.2 d he) strays
  cases gives with
  | byName =>
    intro strays
    cases strays with
    | key refused met other =>
      obtain ⟨e, he, same⟩ := List.mem_map.mp met
      cases same
      have lenient := (admits.others e he other).1
      rw [refused] at lenient
      cases lenient
    | field met known strays =>
      obtain ⟨e, he, same⟩ := List.mem_map.mp met
      cases same
      exact fields he known strays
  | inOrder items fits =>
    intro strays
    cases strays with
    | place met strays => exact fields met (List.of_mem_zip met).1 strays

/-! ## Records that are not strict -/

variable {key : String} {before after : List (Option String × Doc)} {ending : Ending}

theorem readMember_other {slots slots' : Slots r.members} (lenient : r.strict = false)
    (other : key ∉ names r.members) :
    r.readMember source slots (some key, d) = .ok slots' ↔ d.isComplete = true ∧ slots = slots' := by
  rw [readMember, fill_of_not_mem other, lenient]
  cases d.isComplete <;> simp

/-- A key that is no field makes no difference where it may stand. -/
theorem read_insert (lenient : r.strict = false) (other : key ∉ names r.members) :
    r.read source (.record (before ++ (some key, d) :: after) ending) = .ok x ↔
      d.isComplete = true ∧ r.read source (.record (before ++ after) ending) = .ok x := by
  simp only [read, readMembers, List.foldlM_append, List.foldlM_cons, bind_eq_ok,
    readMember_other lenient other]
  constructor
  · rintro ⟨slots, ⟨_, first, _, ⟨complete, rfl⟩, last⟩, made⟩
    exact ⟨complete, slots, ⟨_, first, last⟩, made⟩
  · rintro ⟨complete, slots, ⟨between, first, last⟩, made⟩
    exact ⟨slots, ⟨between, first, between, ⟨complete, rfl⟩, last⟩, made⟩

end RecordForm

end LedgerCodec.Json
