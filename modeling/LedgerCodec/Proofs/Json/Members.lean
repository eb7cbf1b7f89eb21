import LedgerCodec.Proofs.Json.Forms
import LedgerCodec.Proofs.Record.Rows
/-!
# Records from their members

The members of a JSON record may come in any order. `Members.filled` says what has
been read once some keys have been met: one more member fills one more slot
(`fill_filled`), and all of them together make the row (`readMembers_ok`).
-/

namespace LedgerCodec.Json

namespace Members

variable {σ : Type} {source : Source} {key : String} {d : Doc}

/-- The slots of a row whose fields with certain keys have been read. -/
def filled : {σ : Type} → (l : Members σ) → σ → (keys : List String) → Slots l
  | _, .field m, x, keys => if m.name ∈ keys then some x else none
  | _, .both first second, (x, y), keys => (filled first x keys, filled second y keys)

theorem names_field {τ : Type} (m : Member τ) : names (.field m) = [m.name] := rfl

theorem names_both {σ τ : Type} (first : Members σ) (second : Members τ) :
    names (.both first second) = names first ++ names second := rfl

theorem keys_write (l : Members σ) (x : σ) : (write l x).map Prod.fst = names l := by
  induction l with
  | field m => rfl
  | both first second ih₁ ih₂ => rw [write, List.map_append, ih₁, ih₂, names_both]

/-- Every field of a row is written under its name. -/
theorem mem_write (l : Members σ) (x : σ) :
    l.AllOf (fun m y => (m.name, m.form.write y) ∈ write l x) x := by
  induction l with
  | field m => exact List.mem_singleton_self _
  | both first second ih₁ ih₂ =>
    exact ⟨(ih₁ x.1).imp fun m y h => List.mem_append_left _ h,
      (ih₂ x.2).imp fun m y h => List.mem_append_right _ h⟩

theorem filled_nil (l : Members σ) (x : σ) : filled l x [] = noSlots l := by
  induction l with
  | field m => rfl
  | both first second ih₁ ih₂ => exact Prod.ext (ih₁ x.1) (ih₂ x.2)

theorem filled_cons {l : Members σ} (other : key ∉ names l) (x : σ) (keys : List String) :
    filled l x (key :: keys) = filled l x keys := by
  induction l with
  | field m =>
    rw [names_field, List.mem_singleton] at other
    simp [filled, Ne.symm other]
  | both first second ih₁ ih₂ =>
    rw [names_both, List.mem_append, not_or] at other
    exact Prod.ext (ih₁ other.1 x.1) (ih₂ other.2 x.2)

theorem fill_of_not_mem {l : Members σ} (other : key ∉ names l) (slots : Slots l) :
    fill source key d l slots = none := by
  induction l with
  | field m =>
    rw [names_field, List.mem_singleton] at other
    exact if_neg (Ne.symm other)
  | both first second ih₁ ih₂ =>
    rw [names_both, List.mem_append, not_or] at other
    obtain ⟨s, t⟩ : Slots first × Slots second := slots
    simp only [fill, ih₁ other.1, ih₂ other.2, Option.map_none]

/-- A member whose key is new and that its field reads fills one slot. -/
theorem fill_filled {l : Members σ} {x : σ} {keys : List String} (distinct : (names l).Nodup)
    (known : key ∈ names l) (new : key ∉ keys)
    (reads : l.AllOf (fun m y => m.name = key → m.form.read source d = .ok y) x) :
    fill source key d l (filled l x keys) = some (.ok (filled l x (key :: keys))) := by
  induction l with
  | field m =>
    rw [names_field, List.mem_singleton] at known
    subst known
    have read : m.form.read source d = .ok x := reads rfl
    simp [fill, filled, new, read, Except.map]
  | both first second ih₁ ih₂ =>
    obtain ⟨x, y⟩ := x
    obtain ⟨distinct₁, distinct₂, apart⟩ := List.nodup_append.mp distinct
    rw [names_both] at known
    -- The key is a name of one part only, and the other part stays as it is.
    by_cases here : key ∈ names first
    · have other : key ∉ names second := fun h => apart key here key h rfl
      simp only [fill, filled, ih₁ distinct₁ here reads.1, filled_cons other]
      rfl
    · have there : key ∈ names second := (List.mem_append.mp known).resolve_left here
      simp only [fill, filled, fill_of_not_mem here, ih₂ distinct₂ there reads.2, filled_cons here]
      rfl

/-- The row is complete once every field that has been left out may be. -/
theorem row_filled {l : Members σ} {x : σ} {keys : List String}
    (present : l.AllOf (fun m y => m.name ∈ keys ∨ m.absent = some y) x) :
    row l (filled l x keys) = .ok x := by
  induction l with
  | field m =>
    by_cases given : m.name ∈ keys
    · simp [row, filled, given]
    · have absent : m.absent = some x := present.resolve_left given
      simp [row, filled, given, absent]
  | both first second ih₁ ih₂ =>
    obtain ⟨x, y⟩ := x
    simp only [row, filled, ih₁ present.1, ih₂ present.2, bind_ok]

end Members

namespace RecordForm

open Members

variable {σ : Type} {r : RecordForm σ} {source : Source} {x : σ}

/-- Every member is read by the field with its key. -/
def Reads (r : RecordForm σ) (source : Source) (x : σ) (members : List (String × Doc)) : Prop :=
  ∀ e ∈ members, e.1 ∈ names r.members ∧
    r.members.AllOf (fun m y => m.name = e.1 → m.form.read source e.2 = .ok y) x

theorem readMember_filled {e : String × Doc} {keys : List String} {rest : List (String × Doc)}
    (distinct : (names r.members).Nodup) (reads : r.Reads source x (e :: rest)) (new : e.1 ∉ keys) :
    r.readMember source (filled r.members x keys) (some e.1, e.2) =
      .ok (filled r.members x (e.1 :: keys)) := by
  obtain ⟨known, read⟩ := reads e List.mem_cons_self
  rw [readMember, fill_filled distinct known new read]

/-- Members whose keys are new fill the slots of these keys, whatever their order. -/
theorem foldlM_readMember {members : List (String × Doc)} {keys : List String}
    (distinct : (names r.members).Nodup) (reads : r.Reads source x members)
    (once : (members.map Prod.fst).Nodup) (new : ∀ e ∈ members, e.1 ∉ keys) :
    (members.map fun e => (some e.1, e.2)).foldlM (r.readMember source) (filled r.members x keys) =
      .ok (filled r.members x ((members.map Prod.fst).reverse ++ keys)) := by
  induction members generalizing keys with
  | nil => rfl
  | cons e members ih =>
    obtain ⟨fresh, once⟩ := List.nodup_cons.mp once
    -- The key is read now, and must not come again.
    have later : ∀ e' ∈ members, e'.1 ∉ e.1 :: keys := by
      intro e' he' old
      rcases List.mem_cons.mp old with same | old
      · exact fresh (same ▸ List.mem_map_of_mem he')
      · exact new e' (List.mem_cons_of_mem _ he') old
    rw [List.map_cons, List.foldlM_cons,
      readMember_filled distinct reads (new e List.mem_cons_self), bind_ok,
      ih (fun e' he' => reads e' (List.mem_cons_of_mem _ he')) once later,
      List.map_cons, List.reverse_cons, List.append_assoc]
    rfl

/-- A row is read from members in any order, if each is read and none is missing. -/
theorem readMembers_ok {members : List (String × Doc)} (distinct : (names r.members).Nodup)
    (reads : r.Reads source x members) (once : (members.map Prod.fst).Nodup)
    (present : r.members.AllOf
      (fun m y => m.name ∈ members.map Prod.fst ∨ m.absent = some y) x) :
    r.readMembers source (members.map fun e => (some e.1, e.2)) .closed = .ok x := by
  rw [readMembers, ← filled_nil r.members x,
    foldlM_readMember distinct reads once fun _ _ => List.not_mem_nil, bind_ok]
  refine row_filled ?_
  rw [List.append_nil]
  simpa only [List.mem_reverse] using present

/-- A row is read from a written record that has its members in any order. -/
theorem read_record {members : List (String × Json)} (distinct : (names r.members).Nodup)
    (once : (members.map Prod.fst).Nodup) (known : ∀ e ∈ members, e.1 ∈ names r.members)
    (reads : r.members.AllOf
      (fun m y => ∀ v, (m.name, v) ∈ members → m.form.read source v.doc = .ok y) x)
    (present : r.members.AllOf
      (fun m y => m.name ∈ members.map Prod.fst ∨ m.absent = some y) x) :
    r.read source (Json.record members).doc = .ok x := by
  have keys : (members.map fun e => (e.1, e.2.doc)).map Prod.fst = members.map Prod.fst := by
    simp
  have docs : docMembers members =
      (members.map fun e => (e.1, e.2.doc)).map fun e => (some e.1, e.2) := by
    simp [docMembers_eq]
  rw [doc, read, docs]
  refine readMembers_ok distinct (fun e he => ?_) (by rwa [keys]) (by rwa [keys])
  obtain ⟨⟨key, v⟩, hv, rfl⟩ := List.mem_map.mp he
  refine ⟨known _ hv, reads.imp fun m y read same => read v ?_⟩
  rw [same]
  exact hv

end RecordForm

end LedgerCodec.Json
