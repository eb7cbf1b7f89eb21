import Mathlib.Data.List.Forall2
import Mathlib.Data.Option.Defs
import LedgerCodec.Proofs.Record.Unrepeated
/-!
# The order of entries

`Reordered` says that two values differ at most in the order in which their maps
hold their entries, at any depth. A reader is steady if it makes the same of two
such values, be it a value or an error. Readers of plain values look at no map,
and a record looks its keys up and sorts what is left, so it is steady if its
fields are: `Record.steady_nested`.
-/

namespace LedgerCodec

open Wire

/-- The values differ at most in the order in which maps hold their entries, at any depth. -/
inductive Wire.Value.Reordered : Value → Value → Prop
  | same (v : Value) : Reordered v v
  | array {items items' : List Value} (length : items.length = items'.length)
      (inside : ∀ p ∈ items.zip items', Reordered p.1 p.2) :
    Reordered (.array items) (.array items')
  | map {entries moved entries' : List (String × Value)}
      (keys : entries.map Prod.fst = moved.map Prod.fst)
      (inside : ∀ p ∈ entries.zip moved, Reordered p.1.2 p.2.2) (perm : moved.Perm entries') :
    Reordered (.map entries) (.map entries')

/-- A reader makes the same of values that differ in the order of entries, if no key repeats. -/
def Reader.Steady {τ : Type} (r : Reader τ) : Prop :=
  ∀ {key : String} {v v' : Value}, v.Unrepeated → v.Reordered v' → r.read key v = r.read key v'

/-- What a key holds differs in order only: nothing in both cases, or two such values. -/
def HeldAlike : Option Value → Option Value → Prop :=
  Option.Rel fun v v' => v.Unrepeated ∧ v.Reordered v'

theorem Reader.Steady.ofHeld_eq {τ : Type} {r : Reader τ} (steady : r.Steady) {key : String}
    {held held' : Option Value} (h : HeldAlike held held') :
    r.ofHeld key held = r.ofHeld key held' := by
  cases h with
  | none => rfl
  | some same => exact steady same.1 same.2

/-! ## Entries with the same keys -/

/-- Entries that have the same keys in the same order are related if their values are. -/
theorem forall₂_of_zip {R : Value → Value → Prop} {es es' : List (String × Value)}
    (keys : es.map Prod.fst = es'.map Prod.fst) (inside : ∀ p ∈ es.zip es', R p.1.2 p.2.2) :
    List.Forall₂ (fun e e' => e.1 = e'.1 ∧ R e.2 e'.2) es es' := by
  induction es generalizing es' with
  | nil =>
    cases es' with
    | nil => exact .nil
    | cons e' es' => cases keys
  | cons e es ih =>
    cases es' with
    | nil => cases keys
    | cons e' es' =>
      rw [List.map_cons, List.map_cons, List.cons.injEq] at keys
      rw [List.zip_cons_cons, List.forall_mem_cons] at inside
      exact .cons ⟨keys.1, inside.1⟩ (ih keys.2 inside.2)

/-- Entries of the same keys in the same order, whose values differ in order only. -/
def Alike : List (String × Value) → List (String × Value) → Prop :=
  List.Forall₂ fun e e' => e.1 = e'.1 ∧ e.2.Unrepeated ∧ e.2.Reordered e'.2

namespace Alike

variable {es es' : List (String × Value)}

theorem refl (unrepeated : ∀ e ∈ es, e.2.Unrepeated) : Alike es es := by
  induction es with
  | nil => exact .nil
  | cons e es ih =>
    rw [List.forall_mem_cons] at unrepeated
    exact .cons ⟨rfl, unrepeated.1, .same _⟩ (ih unrepeated.2)

/-- What is done to entries by their keys alone is done to both alike. -/
theorem filter (h : Alike es es') (p : String → Bool) :
    Alike (es.filter fun e => p e.1) (es'.filter fun e => p e.1) := by
  induction h with
  | nil => exact .nil
  | @cons e e' es es' same _ ih =>
    rw [List.filter_cons, List.filter_cons, ← same.1]
    split
    · exact .cons same ih
    · exact ih

theorem insertByKey {e e' : String × Value} (h : Alike es es')
    (same : e.1 = e'.1 ∧ e.2.Unrepeated ∧ e.2.Reordered e'.2) :
    Alike (LedgerCodec.insertByKey e es) (LedgerCodec.insertByKey e' es') := by
  induction h with
  | nil => exact .cons same .nil
  | @cons first first' es es' sameFirst rest ih =>
    unfold LedgerCodec.insertByKey
    rw [← same.1, ← sameFirst.1]
    split
    · exact .cons sameFirst ih
    · exact .cons same (.cons sameFirst rest)

theorem sortByKey (h : Alike es es') :
    Alike (LedgerCodec.sortByKey es) (LedgerCodec.sortByKey es') := by
  induction h with
  | nil => exact .nil
  | cons same _ ih => exact ih.insertByKey same

theorem keys_eq (h : Alike es es') : es.map Prod.fst = es'.map Prod.fst := by
  induction h with
  | nil => rfl
  | cons same _ ih => rw [List.map_cons, List.map_cons, same.1, ih]

theorem lookup (h : Alike es es') (key : String) :
    HeldAlike (es.lookup key) (es'.lookup key) := by
  induction h with
  | nil => exact .none
  | @cons e e' es es' same _ ih =>
    obtain ⟨k, v⟩ := e
    obtain ⟨k', v'⟩ := e'
    obtain ⟨rfl, same⟩ := same
    by_cases here : key = k
    · subst here
      rw [List.lookup_cons_self, List.lookup_cons_self]
      exact .some same
    · have other : (key == k) = false := beq_eq_false_iff_ne.mpr here
      rw [List.lookup_cons, List.lookup_cons, other]
      exact ih

theorem find? (h : Alike es es') (key : String) :
    HeldAlike ((⟨es⟩ : Pending).find? key) ((⟨es'⟩ : Pending).find? key) := by
  have held := h.lookup key
  unfold Pending.find?
  dsimp only
  generalize es.lookup key = v at held
  generalize es'.lookup key = v' at held
  cases held with
  | none => exact .none
  | @some v v' same =>
    obtain ⟨unrepeated, same⟩ := same
    cases same with
    | same v =>
      split
      · exact .none
      · exact .some ⟨unrepeated, .same v⟩
    | array length inside => exact .some ⟨unrepeated, .array length inside⟩
    | map keys inside perm => exact .some ⟨unrepeated, .map keys inside perm⟩

end Alike

/-! ## Maps -/

namespace Wire.Value

/-- Maps that differ in order hold entries that are alike, but for their order at this level. -/
theorem Reordered.of_map {entries : List (String × Value)} {v : Value}
    (unrepeated : Unrepeated (.map entries)) (h : Reordered (.map entries) v) :
    ∃ moved entries', v = .map entries' ∧ Alike entries moved ∧ moved.Perm entries' := by
  cases unrepeated with
  | map distinct inner =>
    cases h with
    | same => exact ⟨entries, entries, rfl, Alike.refl inner, .refl _⟩
    | @map _ moved entries' keys inside perm =>
      refine ⟨moved, entries', rfl, ?_, perm⟩
      apply forall₂_of_zip (R := fun v v' => v.Unrepeated ∧ v.Reordered v') keys
      intro p hp
      exact ⟨inner p.1 (List.of_mem_zip hp).1, inside p hp⟩

theorem entriesZero_congr {es es' : List (String × Value)}
    (h : List.Forall₂ (fun e e' => e.1 = e'.1 ∧ e.2.isZero = e'.2.isZero) es es') :
    entriesZero es = entriesZero es' := by
  induction h with
  | nil => rfl
  | cons same _ ih => rw [entriesZero, entriesZero, entryZero, entryZero, same.2, ih]

/-- Zeros stay zeros in any order. -/
theorem Reordered.isZero_eq {v v' : Value} (h : v.Reordered v') : v.isZero = v'.isZero := by
  induction h with
  | same v => rfl
  | @array items items' length _ _ =>
    rw [isZero, isZero]
    cases items <;> cases items' <;> first | rfl | cases length
  | @map entries moved entries' keys _ perm ih =>
    have zeros := entriesZero_congr
      (forall₂_of_zip (R := fun v v' => v.isZero = v'.isZero) keys ih)
    rw [isZero, isZero, zeros, Bool.eq_iff_iff, entriesZero_iff, entriesZero_iff]
    constructor
    · intro zero e he
      exact zero e (perm.mem_iff.mpr he)
    · intro zero e he
      exact zero e (perm.mem_iff.mp he)

end Wire.Value

/-! ## Readers of plain values -/

namespace Reader

theorem steady_uint : uint.Steady := by
  intro key v v' _ h
  cases h <;> rfl

theorem steady_narrow {τ : Type} {bound : Nat} {ofNat : Nat → τ} : (narrow bound ofNat).Steady := by
  intro key v v' unrepeated h
  show (uint.read key v >>= _) = (uint.read key v' >>= _)
  rw [steady_uint unrepeated h]

theorem steady_bool : bool.Steady := by
  intro key v v' _ h
  cases h <;> rfl

theorem steady_text : text.Steady := by
  intro key v v' _ h
  cases h <;> rfl

theorem steady_blob : blob.Steady := by
  intro key v v' _ h
  cases h <;> rfl

theorem steady_fixed {role : Role} : (fixed role).Steady := by
  intro key v v' unrepeated h
  show (blob.read key v >>= _).map _ = (blob.read key v' >>= _).map _
  rw [steady_blob unrepeated h]

theorem steady_list {τ : Type} {item : Reader τ} (steady : item.Steady) : (list item).Steady := by
  intro key v v' unrepeated h
  cases h with
  | same v => rfl
  | map keys inside perm => rfl
  | @array items items' length inside =>
    show items.mapM (item.read key) = items'.mapM (item.read key)
    cases unrepeated with
    | array inner =>
      induction items generalizing items' with
      | nil =>
        cases items' with
        | nil => rfl
        | cons item' items' => cases length
      | cons first items ih =>
        cases items' with
        | nil => cases length
        | cons first' items' =>
          rw [List.forall_mem_cons] at inner
          rw [List.zip_cons_cons, List.forall_mem_cons] at inside
          rw [List.mapM_cons, List.mapM_cons, steady inner.1 inside.1,
            ih (Nat.succ.inj length) inside.2 inner.2]

end Reader

/-! ## Records -/

/-- Whatever keys hold is read as the same row, or fails in the same way, in any order. -/
theorem Fields.readBy_eq_of_steady {σ : Type} {l : Fields σ}
    (steady : l.All fun f => f.kind.reader.Steady) {held held' : String → Option Value}
    (h : ∀ key, HeldAlike (held key) (held' key)) : l.readBy held = l.readBy held' := by
  induction l with
  | field f => exact Reader.Steady.ofHeld_eq steady (h f.key)
  | both first second ih₁ ih₂ => rw [readBy, readBy, ih₁ steady.1, ih₂ steady.2]

theorem Alike.finish_eq {es es' : List (String × Value)} (h : Alike es es') :
    (⟨es⟩ : Pending).finish = (⟨es'⟩ : Pending).finish := by
  cases h with
  | nil => rfl
  | @cons e e' es es' same _ =>
    obtain ⟨key, v⟩ := e
    obtain ⟨key', v'⟩ := e'
    obtain ⟨rfl, -⟩ := same
    rfl

/-- Entries that are alike but for their order are looked up alike, and what is left of them when
some keys are taken out is alike too, once sorted. -/
theorem Alike.of_perm {es moved es' : List (String × Value)} (distinct : (es.map Prod.fst).Nodup)
    (h : Alike es moved) (perm : moved.Perm es') : (es'.map Prod.fst).Nodup ∧
      (∀ key, HeldAlike ((⟨es⟩ : Pending).find? key) ((⟨es'⟩ : Pending).find? key)) ∧
      ∀ keys, Alike (Pending.without keys ⟨LedgerCodec.sortByKey es⟩).entries
        (Pending.without keys ⟨LedgerCodec.sortByKey es'⟩).entries := by
  have distinctMoved : (moved.map Prod.fst).Nodup := h.keys_eq ▸ distinct
  refine ⟨(perm.map Prod.fst).nodup_iff.mp distinctMoved, fun key => ?_, fun keys => ?_⟩
  · have held : (⟨es'⟩ : Pending).find? key = (⟨moved⟩ : Pending).find? key := by
      unfold Pending.find?
      rw [lookup_eq_of_perm distinctMoved perm]
    rw [held]
    exact h.find? key
  · rw [← sortByKey_eq_of_perm distinctMoved perm]
    exact h.sortByKey.filter fun key => !keys.contains key

/-- A record of steady fields is read alike from maps that differ in the order of entries. -/
theorem Record.steady_nested {ρ : Type} [Record ρ] (distinctKeys : (keys ρ).Nodup)
    (steady : (fields (ρ := ρ)).All fun f => f.kind.reader.Steady) :
    (Reader.nested : Reader ρ).Steady := by
  intro key v v' unrepeated h
  show (decodeValue key v : Except Error ρ) = decodeValue key v'
  cases unrepeated with
  | map distinct inner =>
    obtain ⟨moved, es', rfl, alike, perm⟩ := h.of_map (.map distinct inner)
    obtain ⟨distinct', held, left⟩ := alike.of_perm distinct perm
    rw [decodeValue_map distinctKeys key distinct, decodeValue_map distinctKeys key distinct',
      Fields.readBy_eq_of_steady steady held, (left (keys ρ)).finish_eq]
  | _ => cases h <;> rfl

end LedgerCodec
