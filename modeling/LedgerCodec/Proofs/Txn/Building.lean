import LedgerCodec.Txn.Transaction
/-!
# Building transactions

A transaction is built by changes of its header, one after the other. A change gives
a value to each field that it sets, and leaves the other fields and the payload as
they are: `Change.get_apply`, `Change.payload_apply`. So after any changes a field
holds what the last change that sets it gives it, and changes that set different
fields may come in any order: `Transaction.build_last_write`.
-/

namespace LedgerCodec

/-! ## The fields of a header -/

/-- A field of a header. -/
inductive HeaderField
  | sender
  | fee
  | firstValid
  | lastValid
  | note
  | genesisId
  | genesisHash
  | group
  | lease
  | rekeyTo
deriving DecidableEq

namespace HeaderField

/-- All fields, in order. -/
def all : List HeaderField :=
  [sender, fee, firstValid, lastValid, note, genesisId, genesisHash, group, lease, rekeyTo]

theorem mem_all (f : HeaderField) : f ∈ all := by
  cases f <;> decide

/-- The type of the values of a field. -/
def Value : HeaderField → Type
  | sender | rekeyTo => Address
  | fee | firstValid | lastValid => UInt64
  | note => Bytes
  | genesisId => String
  | genesisHash | group => Digest
  | lease => Lease

/-- What a header holds in a field. -/
def get : (f : HeaderField) → Header → f.Value
  | sender, h => h.sender
  | fee, h => h.fee
  | firstValid, h => h.firstValid
  | lastValid, h => h.lastValid
  | note, h => h.note
  | genesisId, h => h.genesisId
  | genesisHash, h => h.genesisHash
  | group, h => h.group
  | lease, h => h.lease
  | rekeyTo, h => h.rekeyTo

/-- The value of a field that is not set. -/
def zero : (f : HeaderField) → f.Value
  | sender | rekeyTo => Fixed.zero .address
  | fee | firstValid | lastValid => (0 : UInt64)
  | note => ([] : Bytes)
  | genesisId => ""
  | genesisHash | group => Fixed.zero .digest
  | lease => Fixed.zero .lease

theorem get_default (f : HeaderField) : f.get default = f.zero := by
  cases f <;> rfl

end HeaderField

/-- A header has no other fields. -/
theorem Header.eq_of_get {h k : Header} (same : ∀ f : HeaderField, f.get h = f.get k) : h = k :=
  (Header.mk.injEq ..).mpr
    ⟨same .sender, same .fee, same .firstValid, same .lastValid, same .note, same .genesisId,
      same .genesisHash, same .group, same .lease, same .rekeyTo⟩

namespace Transaction

variable {payload : Payload} {changes other : List Change}

/-! ## One change -/

namespace Change

/-- What a change gives to a field; nothing if it does not set it. A change of both rounds gives
each its own. -/
def value? : (f : HeaderField) → Change → Option f.Value
  | .sender, sender x => some x
  | .fee, fee x => some x
  | .firstValid, firstValid x => some x
  | .firstValid, validRounds first _ => some first
  | .lastValid, lastValid x => some x
  | .lastValid, validRounds _ last => some last
  | .note, note x => some x
  | .genesisId, genesisId x => some x
  | .genesisHash, genesisHash x => some x
  | .group, group x => some x
  | .lease, lease x => some x
  | .rekeyTo, rekeyTo x => some x
  | _, _ => none

/-- Whether a change sets a field. -/
def sets (f : HeaderField) (c : Change) : Bool :=
  (c.value? f).isSome

/-- Two changes set no common field. -/
def Apart (c d : Change) : Prop :=
  ∀ f, c.sets f = true → d.sets f = false

instance (c d : Change) : Decidable (c.Apart d) :=
  decidable_of_iff (∀ f ∈ HeaderField.all, c.sets f = true → d.sets f = false)
    ⟨fun h f => h f f.mem_all, fun h f _ => h f⟩

theorem get_apply (f : HeaderField) (t : Transaction) (c : Change) :
    f.get (c.apply t).header = (c.value? f).getD (f.get t.header) := by
  cases f <;> cases c <;> rfl

theorem payload_apply (t : Transaction) (c : Change) : (c.apply t).payload = t.payload := by
  cases c <;> rfl

end Change

/-! ## Any changes -/

/-- What changes give to a field, in order. -/
def written (f : HeaderField) (changes : List Change) : List f.Value :=
  changes.filterMap (Change.value? f)

/-- What the last change that sets a field gives to it; zero if none sets it. -/
def lastWritten (f : HeaderField) (changes : List Change) : f.Value :=
  (written f changes).getLast?.getD f.zero

theorem get_foldl_apply (f : HeaderField) (changes : List Change) (t : Transaction) :
    f.get (changes.foldl Change.apply t).header =
      (written f changes).getLast?.getD (f.get t.header) := by
  induction changes generalizing t with
  | nil => rfl
  | cons c changes ih =>
    -- What the first change gives is what the field holds before the rest.
    rw [List.foldl_cons, ih, Change.get_apply, written, written]
    cases h : c.value? f with
    | none => rw [List.filterMap_cons_none h, Option.getD_none]
    | some x =>
      rw [List.filterMap_cons_some h, List.getLast?_cons, Option.getD_some, Option.getD_some]

theorem payload_foldl_apply (changes : List Change) (t : Transaction) :
    (changes.foldl Change.apply t).payload = t.payload := by
  induction changes generalizing t with
  | nil => rfl
  | cons c changes ih => rw [List.foldl_cons, ih, Change.payload_apply]

theorem get_build (f : HeaderField) (payload : Payload) (changes : List Change) :
    f.get (build payload changes).header = lastWritten f changes := by
  rw [build, get_foldl_apply, HeaderField.get_default, lastWritten]

theorem payload_build (payload : Payload) (changes : List Change) :
    (build payload changes).payload = payload :=
  payload_foldl_apply changes ⟨default, payload⟩

/-- The payload and what was written last to each field make the whole transaction. -/
theorem build_eq_iff {payload' : Payload} :
    build payload changes = build payload' other ↔
      payload = payload' ∧ ∀ f, lastWritten f changes = lastWritten f other := by
  constructor
  · intro same
    refine ⟨?_, fun f => ?_⟩
    · rw [← payload_build payload changes, same, payload_build]
    · rw [← get_build f payload changes, same, get_build]
  · rintro ⟨rfl, same⟩
    have header : (build payload changes).header = (build payload other).header := by
      refine Header.eq_of_get fun f => ?_
      rw [get_build, get_build, same f]
    have carried : (build payload changes).payload = (build payload other).payload := by
      rw [payload_build, payload_build]
    exact (Transaction.mk.injEq ..).mpr ⟨header, carried⟩

/-! ## Other orders -/

/-- The same changes in another order, in which those that set a common field come as before. -/
structure Rearranged (changes other : List Change) : Prop where
  perm : changes.Perm other
  /-- Those that set one field come as before. -/
  order (f : HeaderField) : changes.filter (Change.sets f) = other.filter (Change.sets f)

/-- Changes of which no two set a common field may come in any order. -/
theorem rearranged_of_apart (apart : changes.Pairwise Change.Apart) (perm : changes.Perm other) :
    Rearranged changes other := by
  refine ⟨perm, fun f => ?_⟩
  have same : (changes.filter (Change.sets f)).Perm (other.filter (Change.sets f)) := perm.filter _
  have few : (changes.filter (Change.sets f)).Pairwise Change.Apart := apart.filter _
  -- At most one of them sets the field, and one change has one order.
  cases h : changes.filter (Change.sets f) with
  | nil =>
    rw [h] at same
    exact same.nil_eq
  | cons c rest =>
    cases rest with
    | nil =>
      rw [h] at same
      exact List.singleton_perm.mp same
    | cons d rest =>
      have set (e : Change) (he : e ∈ c :: d :: rest) : e.sets f = true :=
        (List.mem_filter.mp (h ▸ he)).2
      rw [h] at few
      have unset : d.sets f = false :=
        List.rel_of_pairwise_cons few List.mem_cons_self f (set c (by simp))
      rw [set d (by simp)] at unset
      cases unset

theorem written_filter (f : HeaderField) (changes : List Change) :
    written f (changes.filter (Change.sets f)) = written f changes := by
  have setting : (fun c : Change => if c.sets f then c.value? f else none) = Change.value? f := by
    funext c
    rw [Change.sets]
    cases c.value? f <;> rfl
  rw [written, List.filterMap_filter, setting, written]

theorem Rearranged.build_eq (h : Rearranged changes other) (payload : Payload) :
    build payload other = build payload changes := by
  refine build_eq_iff.mpr ⟨rfl, fun f => ?_⟩
  have same : written f other = written f changes := by
    rw [← written_filter, ← h.order f, written_filter]
  rw [lastWritten, lastWritten, same]

/-- Whatever changes build a transaction, each field of its header holds what the last change that
sets it gives it, or is not set if there is none, and the payload is the one from the start. The
order makes a difference only among changes that set a common field. -/
theorem build_last_write (payload : Payload) (changes other : List Change) :
    (∀ f : HeaderField, f.get (build payload changes).header = lastWritten f changes) ∧
    (build payload changes).payload = payload ∧
    (changes.Pairwise Change.Apart → changes.Perm other → Rearranged changes other) ∧
    (Rearranged changes other →
      encode (build payload other) = encode (build payload changes) ∧
        (build payload other).id = (build payload changes).id) := by
  refine ⟨fun f => get_build f payload changes, payload_build payload changes,
    rearranged_of_apart, fun moved => ?_⟩
  rw [moved.build_eq payload]
  exact ⟨rfl, rfl⟩

/-- Fields that are set once, the last one first; and a fee that is set twice, with the first valid
round set again after both rounds. -/
theorem build_last_write_twice :
    let once : List Change := [.fee 2, .validRounds 5 9, .note [1], .genesisId "net"]
    let twice : List Change := [.fee 1, .validRounds 5 9, .fee 2, .firstValid 7]
    let moved : List Change := [.validRounds 5 9, .fee 1, .firstValid 7, .fee 2]
    (once.Pairwise Change.Apart ∧ once.Perm once.reverse ∧
      (build (.payment default) once.reverse).id = (build (.payment default) once).id) ∧
    (Rearranged twice moved ∧
      (build (.payment default) twice).header =
        { (default : Header) with fee := 2, firstValid := 7, lastValid := 9 } ∧
      encode (build (.payment default) moved) = encode (build (.payment default) twice)) := by
  intro once twice moved
  have apart : once.Pairwise Change.Apart := by decide
  have perm : once.Perm once.reverse := (List.reverse_perm once).symm
  obtain ⟨-, -, reversed, same⟩ := build_last_write (.payment default) once once.reverse
  have order : Rearranged twice moved := ⟨by decide, fun f => by cases f <;> rfl⟩
  obtain ⟨last, -, -, alike⟩ := build_last_write (.payment default) twice moved
  refine ⟨⟨apart, perm, (same (reversed apart perm)).2⟩, order, ?_, (alike order).1⟩
  refine Header.eq_of_get fun f => ?_
  rw [last f]
  cases f <;> rfl

end Transaction

end LedgerCodec
