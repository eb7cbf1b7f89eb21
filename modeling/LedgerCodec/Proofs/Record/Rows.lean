import LedgerCodec.Record.Canonical
import LedgerCodec.Proofs.Outcome
import LedgerCodec.Proofs.Record.KeyOrder
/-!
# Rows as functions of their entries

Reading a row takes its fields out of the pending entries one after the other.
`read_eq` shows that the row depends only on what each key holds, and that the
entries left are those of other keys. Pushing a row appends its entries that are
not zero: `push_list`. The other statements about records start from these two.
-/

namespace LedgerCodec

open Wire

/-! ## All fields of a layout -/

namespace Layout

variable {F : Type → Type}

/-- Every field has a property. -/
def All (P : {τ : Type} → F τ → Prop) : {σ : Type} → Layout F σ → Prop
  | _, field f => P f
  | _, both first second => first.All P ∧ second.All P

/-- Every field and its value in a row have a property. -/
def AllOf (P : {τ : Type} → F τ → τ → Prop) : {σ : Type} → Layout F σ → σ → Prop
  | _, field f, x => P f x
  | _, both first second, (x, y) => first.AllOf P x ∧ second.AllOf P y

theorem All.imp {P Q : {τ : Type} → F τ → Prop} (hpq : ∀ {τ : Type} (f : F τ), P f → Q f) {σ : Type}
    {l : Layout F σ} (h : l.All P) : l.All Q := by
  induction l with
  | field f => exact hpq f h
  | both first second ih₁ ih₂ => exact ⟨ih₁ h.1, ih₂ h.2⟩

theorem All.allOf {P : {τ : Type} → F τ → Prop} {σ : Type} {l : Layout F σ} (h : l.All P) (x : σ) :
    l.AllOf (fun f _ => P f) x := by
  induction l with
  | field f => exact h
  | both first second ih₁ ih₂ => exact ⟨ih₁ h.1 x.1, ih₂ h.2 x.2⟩

theorem AllOf.imp {P Q : {τ : Type} → F τ → τ → Prop}
    (hpq : ∀ {τ : Type} (f : F τ) (y : τ), P f y → Q f y) {σ : Type} {l : Layout F σ} {x : σ}
    (h : l.AllOf P x) : l.AllOf Q x := by
  induction l with
  | field f => exact hpq f x h
  | both first second ih₁ ih₂ => exact ⟨ih₁ h.1, ih₂ h.2⟩

theorem AllOf.and {P Q : {τ : Type} → F τ → τ → Prop} {σ : Type} {l : Layout F σ} {x : σ}
    (hp : l.AllOf P x) (hq : l.AllOf Q x) : l.AllOf (fun f y => P f y ∧ Q f y) x := by
  induction l with
  | field f => exact ⟨hp, hq⟩
  | both first second ih₁ ih₂ => exact ⟨ih₁ hp.1 hq.1, ih₂ hp.2 hq.2⟩

theorem AllOf.all {P : {τ : Type} → F τ → τ → Prop} {Q : {τ : Type} → F τ → Prop}
    (hpq : ∀ {τ : Type} (f : F τ) (y : τ), P f y → Q f) {σ : Type} {l : Layout F σ} {x : σ}
    (h : l.AllOf P x) : l.All Q := by
  induction l with
  | field f => exact hpq f x h
  | both first second ih₁ ih₂ => exact ⟨ih₁ h.1, ih₂ h.2⟩

theorem allOf_map {G : Type → Type} {g : {τ : Type} → F τ → G τ} {P : {τ : Type} → G τ → τ → Prop}
    {σ : Type} {l : Layout F σ} {x : σ} :
    (l.map g).AllOf P x ↔ l.AllOf (fun f y => P (g f) y) x := by
  induction l with
  | field f => rfl
  | both first second ih₁ ih₂ => exact and_congr ih₁ ih₂

theorem collect_map {G : Type → Type} {α : Type} (g : {τ : Type} → F τ → G τ)
    (k : {τ : Type} → G τ → α) {σ : Type} (l : Layout F σ) :
    (l.map g).collect k = l.collect fun f => k (g f) := by
  induction l with
  | field f => rfl
  | both first second ih₁ ih₂ => rw [map, collect, collect, ih₁, ih₂]

theorem all_mem_collect {α : Type} (k : {τ : Type} → F τ → α) {σ : Type} (l : Layout F σ) :
    l.All fun f => k f ∈ l.collect k := by
  induction l with
  | field f => exact List.mem_singleton_self _
  | both first second ih₁ ih₂ =>
    exact ⟨ih₁.imp fun f h => List.mem_append_left _ h, ih₂.imp fun f h => List.mem_append_right _ h⟩

/-- What holds of every field and value holds of those that `a` was collected from. -/
theorem AllOf.of_mem_collect {α : Type} {P : {τ : Type} → F τ → τ → Prop}
    {k : {τ : Type} → F τ → α} {a : α} {σ : Type} {l : Layout F σ} {x : σ} (h : l.AllOf P x)
    (ha : a ∈ l.collect k) {C : Prop}
    (use : ∀ {τ : Type} (f : F τ) (y : τ), k f = a → P f y → C) : C := by
  induction l with
  | field f => exact use f x (List.mem_singleton.mp ha).symm h
  | both first second ih₁ ih₂ =>
    rcases List.mem_append.mp ha with ha | ha
    · exact ih₁ h.1 ha
    · exact ih₂ h.2 ha

end Layout

/-! ## Pending entries -/

namespace Pending

/-- The entries of other keys. -/
def without (keys : List String) (p : Pending) : Pending :=
  ⟨p.entries.filter fun e => !keys.contains e.1⟩

theorem mem_without {keys : List String} {p : Pending} {e : String × Value} :
    e ∈ (p.without keys).entries ↔ e ∈ p.entries ∧ e.1 ∉ keys := by
  rw [without, List.mem_filter, Bool.not_eq_true', List.contains_eq_mem, decide_eq_false_iff_not]

theorem find?_eq_some {p : Pending} {key : String} {v : Value} :
    p.find? key = some v ↔ p.entries.lookup key = some v ∧ v ≠ .nil := by
  unfold find?
  split
  · rename_i h
    rw [h]
    exact ⟨nofun, fun hv => absurd (Option.some.inj hv.1).symm hv.2⟩
  · rename_i h
    refine ⟨fun hv => ⟨hv, fun e => h (e ▸ hv)⟩, And.left⟩

theorem find?_of_lookup_ne {p : Pending} {key : String} (h : p.entries.lookup key ≠ some .nil) :
    p.find? key = p.entries.lookup key := by
  unfold find?
  split
  · contradiction
  · rfl

theorem find?_without {keys : List String} {p : Pending} {key : String} (h : key ∉ keys) :
    (p.without keys).find? key = p.find? key := by
  have kept : (!keys.contains key) = true := by simpa using h
  have same := @lookup_filter_of_true _ p.entries (fun k => !keys.contains k) key kept
  unfold find? without
  rw [same]

theorem without_without (keys keys' : List String) (p : Pending) :
    (p.without keys).without keys' = p.without (keys ++ keys') := by
  simp [without, List.filter_filter, Bool.and_comm]

theorem erase_eq_without (key : String) (p : Pending) : p.erase key = p.without [key] := by
  have same (k : String) : (k != key) = !([key].contains k) := by
    simp [bne, List.contains_eq_mem, Bool.beq_eq_decide_eq]
  simp only [erase, without, same]

end Pending

/-- What is written for a value, if it is not zero. -/
def Writer.written {τ : Type} (w : Writer τ) (x : τ) : Option Value :=
  if w.isZero x then none else some (w.write x)

/-! ## Reading a row -/

/-- What a field reads as, given what its key holds. -/
def Reader.ofHeld {τ : Type} (r : Reader τ) (key : String) : Option Value → Except Error τ
  | some v => r.read key v
  | none => r.absent key

theorem Pending.read_eq {τ : Type} (r : Reader τ) (key : String) (p : Pending) :
    p.read r key = (r.ofHeld key (p.find? key), p.without [key]) := by
  rw [read, erase_eq_without]
  cases p.find? key <;> rfl

namespace Fields

/-- The row that keys give which hold what `held` says. -/
def readBy : {σ : Type} → Fields σ → (held : String → Option Value) → Except Error σ
  | _, .field f, held => f.kind.reader.ofHeld f.key (held f.key)
  | _, .both first second, held => do
    let x ← readBy first held
    let y ← readBy second held
    .ok (x, y)

theorem keys_field {τ : Type} (f : Field τ) : keys (.field f) = [f.key] := rfl

theorem keys_both {σ τ : Type} (first : Fields σ) (second : Fields τ) :
    keys (.both first second) = first.keys ++ second.keys := rfl

theorem readBy_congr {σ : Type} {l : Fields σ} {held held' : String → Option Value}
    (h : ∀ key ∈ l.keys, held key = held' key) : l.readBy held = l.readBy held' := by
  induction l with
  | field f => rw [readBy, readBy, h f.key (by simp [keys_field])]
  | both first second ih₁ ih₂ =>
    rw [readBy, readBy, ih₁ fun key hk => h key (by simp [keys_both, hk]),
      ih₂ fun key hk => h key (by simp [keys_both, hk])]

/-- A row is read from what the keys hold exactly if each of its fields is. -/
theorem readBy_eq_ok {σ : Type} {l : Fields σ} {held : String → Option Value} {x : σ} :
    l.readBy held = .ok x ↔
      l.AllOf (fun f y => f.kind.reader.ofHeld f.key (held f.key) = .ok y) x := by
  induction l with
  | field f => rfl
  | both first second ih₁ ih₂ =>
    obtain ⟨x, y⟩ := x
    rw [readBy, Layout.AllOf, ← ih₁, ← ih₂, bind_eq_ok]
    constructor
    · rintro ⟨x', hx, h⟩
      obtain ⟨y', hy, h⟩ := bind_eq_ok.mp h
      cases h
      exact ⟨hx, hy⟩
    · rintro ⟨hx, hy⟩
      exact ⟨x, hx, by rw [hy, bind_ok]⟩

/-- The row depends only on what each key holds, and what is left are the entries of other keys. -/
theorem read_eq {σ : Type} (l : Fields σ) (distinct : l.keys.Nodup) (p : Pending) :
    l.read p = (l.readBy fun key => p.find? key).map fun x => (x, p.without l.keys) := by
  induction l generalizing p with
  | field f =>
    rw [read, readBy, Pending.read_eq, keys_field]
    cases f.kind.reader.ofHeld f.key (p.find? f.key) <;> rfl
  | both first second ih₁ ih₂ =>
    obtain ⟨h₁, h₂, apart⟩ := List.nodup_append.mp distinct
    have same : readBy second (fun key => (p.without (keys first)).find? key) =
        readBy second fun key => p.find? key := by
      refine readBy_congr fun key hk => Pending.find?_without fun hk' => ?_
      exact apart key hk' key hk rfl
    rw [read, readBy, ih₁ h₁, keys_both]
    cases readBy first fun key => p.find? key with
    | error e => rfl
    | ok x =>
      simp only [Except.map, bind_ok]
      rw [ih₂ h₂, same, Pending.without_without]
      cases readBy second fun key => p.find? key <;> rfl

/-! ## Pushing a row -/

/-- The entries of a row: those of its fields that are not zero. -/
def entries : {σ : Type} → Fields σ → σ → List (String × Value)
  | _, .field f, x => if f.kind.writer.isZero x then [] else [(f.key, f.kind.writer.write x)]
  | _, .both first second, (x, y) => entries first x ++ entries second y

/-- What holds of each field that is not zero holds of the entries. -/
theorem forall_mem_entries {σ : Type} {l : Fields σ} {x : σ} {P : String → Value → Prop}
    (h : l.AllOf (fun f y => f.kind.writer.isZero y = false → P f.key (f.kind.writer.write y)) x) :
    ∀ e ∈ l.entries x, P e.1 e.2 := by
  induction l with
  | field f =>
    intro e he
    rw [entries] at he
    split at he
    · cases he
    · rename_i nonzero
      rw [List.mem_singleton] at he
      subst he
      exact h (Bool.eq_false_iff.mpr nonzero)
  | both first second ih₁ ih₂ =>
    intro e he
    rcases List.mem_append.mp he with he | he
    · exact ih₁ h.1 e he
    · exact ih₂ h.2 e he

theorem push_list {σ : Type} (l : Fields σ) (x : σ) (es : Entries) :
    (l.push x es).list = es.list ++ l.entries x := by
  induction l generalizing es with
  | field f =>
    rw [push, Entries.push, entries]
    split <;> simp
  | both first second ih₁ ih₂ =>
    obtain ⟨x, y⟩ := x
    rw [push, ih₂, ih₁, entries, List.append_assoc]

theorem keys_entries_sublist {σ : Type} (l : Fields σ) (x : σ) :
    ((l.entries x).map Prod.fst).Sublist l.keys := by
  induction l with
  | field f =>
    rw [entries, keys_field]
    split <;> simp
  | both first second ih₁ ih₂ =>
    rw [entries, keys_both, List.map_append]
    exact (ih₁ x.1).append (ih₂ x.2)

theorem key_mem_of_mem_entries {σ : Type} {l : Fields σ} {x : σ} {e : String × Value}
    (h : e ∈ l.entries x) : e.1 ∈ l.keys :=
  (l.keys_entries_sublist x).subset (List.mem_map.mpr ⟨e, h, rfl⟩)

theorem nodup_keys_entries {σ : Type} {l : Fields σ} (distinct : l.keys.Nodup) (x : σ) :
    ((l.entries x).map Prod.fst).Nodup :=
  distinct.sublist (l.keys_entries_sublist x)

/-- The entries of a row are what is written for its keys. -/
theorem mem_entries_iff_written {σ : Type} {l : Fields σ} {x : σ} {written : String → Option Value}
    (h : l.AllOf (fun f y => written f.key = f.kind.writer.written y) x) {e : String × Value} :
    e ∈ l.entries x ↔ e.1 ∈ l.keys ∧ written e.1 = some e.2 := by
  induction l with
  | field f =>
    obtain ⟨key, w⟩ := e
    have here : written f.key = f.kind.writer.written x := h
    unfold Writer.written at here
    rw [entries, keys_field, List.mem_singleton]
    split
    · rename_i zero
      rw [if_pos zero] at here
      constructor
      · intro he
        cases he
      · rintro ⟨rfl, is⟩
        cases here.symm.trans is
    · rename_i some
      rw [if_neg some] at here
      rw [List.mem_singleton, Prod.mk.injEq]
      constructor
      · rintro ⟨rfl, rfl⟩
        exact ⟨rfl, here⟩
      · rintro ⟨rfl, is⟩
        exact ⟨rfl, Option.some.inj (is.symm.trans here)⟩
  | both first second ih₁ ih₂ =>
    rw [entries, keys_both, List.mem_append, List.mem_append, ih₁ h.1, ih₂ h.2, or_and_right]

theorem length_entries_le {σ : Type} (l : Fields σ) (x : σ) : (l.entries x).length ≤ l.size := by
  have := (l.keys_entries_sublist x).length_le
  rwa [List.length_map, keys, Layout.length_collect] at this

end Fields

end LedgerCodec
