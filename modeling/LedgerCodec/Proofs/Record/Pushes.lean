import LedgerCodec.Proofs.Record.KeyOrder
import LedgerCodec.Proofs.Wire.RoundTrip
/-!
# What pushes leave

A record is encoded by pushing its fields one after the other. `Pushed` writes a
push down by its kind, with the pushes of a nested record and the items of a list
inside it, and `Entries.pushAll` runs it. What should come of it is said without
the encoder: `Holds` relates a push to the value that stands for it, `Leaves` the
pushes of one record to their entries. The encoder leaves that and nothing else,
whatever the order of the pushes: `pushAll_canonical`.
-/

namespace LedgerCodec

open Wire

/-! ## Pushes and their runs -/

/-- What is pushed under a key, or stands in a list. -/
inductive Pushed
  | uint (n : UInt64)
  | bool (b : Bool)
  | text (s : String)
  | blob (bs : Bytes)
  | fixed (n : Nat) (x : Sized n)
  | record (pushes : List (String × Pushed))
  | list (items : List Pushed)

/-- Writes a value as it is. -/
def Writer.verbatim : Writer Value := ⟨id, Value.isZero⟩

mutual

def Pushed.push : Pushed → (key : String) → Entries → Entries
  | .uint n, key, es => es.push .uint key n
  | .bool b, key, es => es.push .bool key b
  | .text s, key, es => es.push .text key s
  | .blob bs, key, es => es.push .blob key bs
  | .fixed n x, key, es => es.push (.sized n) key x
  | .record ps, key, es => es.push .record key (Entries.pushAll ps .empty)
  | .list xs, key, es => es.push (.list .verbatim) key (Pushed.writeItems xs)
termination_by structural x => x

/-- Pushes into one record, first to last. -/
def Entries.pushAll : List (String × Pushed) → Entries → Entries
  | [], es => es
  | p :: ps, es => Entries.pushAll ps (Entries.pushOne p es)
termination_by structural ps => ps

def Entries.pushOne : String × Pushed → Entries → Entries
  | (key, x), es => x.push key es
termination_by structural p => p

/-- The value of an item of a list, zero or not. -/
def Pushed.write : Pushed → Value
  | .uint n => Writer.uint.write n
  | .bool b => Writer.bool.write b
  | .text s => Writer.text.write s
  | .blob bs => Writer.blob.write bs
  | .fixed n x => (Writer.sized n).write x
  | .record ps => Writer.record.write (Entries.pushAll ps .empty)
  | .list xs => (Writer.list .verbatim).write (Pushed.writeItems xs)
termination_by structural x => x

def Pushed.writeItems : List Pushed → List Value
  | [] => []
  | x :: xs => x.write :: Pushed.writeItems xs
termination_by structural xs => xs

end

/-! ## What should be left -/

namespace Pushed

/-- Zero for its kind. A record is if all that is pushed into it is, a list only if it is empty. -/
inductive Zero : Pushed → Prop
  | uint : Zero (.uint 0)
  | bool : Zero (.bool false)
  | text : Zero (.text "")
  | blob : Zero (.blob [])
  | fixed {n : Nat} {x : Sized n} (zeros : ∀ b ∈ x.bytes, b = 0) : Zero (.fixed n x)
  | record {ps : List (String × Pushed)} (inside : ∀ p ∈ ps, Zero p.2) : Zero (.record ps)
  | list : Zero (.list [])

/-- No key is pushed twice into one record, at any depth. -/
inductive Distinct : Pushed → Prop
  | uint (n : UInt64) : Distinct (.uint n)
  | bool (b : Bool) : Distinct (.bool b)
  | text (s : String) : Distinct (.text s)
  | blob (bs : Bytes) : Distinct (.blob bs)
  | fixed (n : Nat) (x : Sized n) : Distinct (.fixed n x)
  | record {ps : List (String × Pushed)} (keys : (ps.map Prod.fst).Nodup)
      (inside : ∀ p ∈ ps, Distinct p.2) : Distinct (.record ps)
  | list {xs : List Pushed} (inside : ∀ x ∈ xs, Distinct x) : Distinct (.list xs)

mutual

/-- The value stands for the push: a map of ascending keys for a record, and for a list one value
for each item, in order. -/
inductive Holds : Pushed → Value → Prop
  | uint (n : UInt64) : Holds (.uint n) (.uint n)
  | bool (b : Bool) : Holds (.bool b) (.bool b)
  | text (s : String) : Holds (.text s) (.str s)
  | blob (bs : Bytes) : Holds (.blob bs) (.bin bs)
  | fixed {n : Nat} (x : Sized n) : Holds (.fixed n x) (.bin x.bytes)
  | record {ps : List (String × Pushed)} {left es : List (String × Value)} (leaves : Leaves ps left)
      (perm : left.Perm es) (ascending : Ascending es) : Holds (.record ps) (.map es)
  | list {xs : List Pushed} {vs : List Value} (items : HoldsItems xs vs) : Holds (.list xs) (.array vs)

/-- One entry for each push that is not zero, in the order of the pushes. -/
inductive Leaves : List (String × Pushed) → List (String × Value) → Prop
  | nil : Leaves [] []
  | zero {key : String} {x : Pushed} {ps : List (String × Pushed)} {left : List (String × Value)} :
    Zero x → Leaves ps left → Leaves ((key, x) :: ps) left
  | entry {key : String} {x : Pushed} {v : Value} {ps : List (String × Pushed)}
      {left : List (String × Value)} :
    ¬ Zero x → Holds x v → Leaves ps left → Leaves ((key, x) :: ps) ((key, v) :: left)

inductive HoldsItems : List Pushed → List Value → Prop
  | nil : HoldsItems [] []
  | cons {x : Pushed} {v : Value} {xs : List Pushed} {vs : List Value} :
    Holds x v → HoldsItems xs vs → HoldsItems (x :: xs) (v :: vs)

end

mutual

/-- The same push, but for the order of pushes into records at any depth. -/
inductive Reordered : Pushed → Pushed → Prop
  | same (x : Pushed) : Reordered x x
  | record {ps moved qs : List (String × Pushed)} (each : ReorderedEach ps moved)
      (perm : moved.Perm qs) : Reordered (.record ps) (.record qs)
  | list {xs ys : List Pushed} (items : ReorderedItems xs ys) : Reordered (.list xs) (.list ys)

inductive ReorderedEach : List (String × Pushed) → List (String × Pushed) → Prop
  | nil : ReorderedEach [] []
  | cons {key : String} {x y : Pushed} {ps qs : List (String × Pushed)} :
    Reordered x y → ReorderedEach ps qs → ReorderedEach ((key, x) :: ps) ((key, y) :: qs)

inductive ReorderedItems : List Pushed → List Pushed → Prop
  | nil : ReorderedItems [] []
  | cons {x y : Pushed} {xs ys : List Pushed} :
    Reordered x y → ReorderedItems xs ys → ReorderedItems (x :: xs) (y :: ys)

end

/-! ## What is left -/

@[simp]
theorem zero_uint {n : UInt64} : Zero (.uint n) ↔ n = 0 :=
  ⟨fun h => by cases h; rfl, fun h => h ▸ .uint⟩

@[simp]
theorem zero_bool {b : Bool} : Zero (.bool b) ↔ b = false :=
  ⟨fun h => by cases h; rfl, fun h => h ▸ .bool⟩

@[simp]
theorem zero_text {s : String} : Zero (.text s) ↔ s = "" :=
  ⟨fun h => by cases h; rfl, fun h => h ▸ .text⟩

@[simp]
theorem zero_blob {bs : Bytes} : Zero (.blob bs) ↔ bs = [] :=
  ⟨fun h => by cases h; rfl, fun h => h ▸ .blob⟩

@[simp]
theorem zero_fixed {n : Nat} {x : Sized n} : Zero (.fixed n x) ↔ ∀ b ∈ x.bytes, b = 0 :=
  ⟨fun h => by cases h; assumption, .fixed⟩

@[simp]
theorem zero_record {ps : List (String × Pushed)} : Zero (.record ps) ↔ ∀ p ∈ ps, Zero p.2 :=
  ⟨fun h => by cases h; assumption, .record⟩

@[simp]
theorem zero_list {xs : List Pushed} : Zero (.list xs) ↔ xs = [] :=
  ⟨fun h => by cases h; rfl, fun h => h ▸ .list⟩

/-- A nested record leaves entries exactly if one of its pushes is not zero. -/
theorem Leaves.eq_nil_iff {ps : List (String × Pushed)} {left : List (String × Value)}
    (h : Leaves ps left) : left = [] ↔ Zero (.record ps) := by
  rw [zero_record]
  induction ps generalizing left with
  | nil => cases h; simp
  | cons p ps ih =>
    cases h with
    | zero zero rest => simp [zero, ih rest]
    | entry some _ rest => simp [some]

theorem Leaves.keys_sublist {ps : List (String × Pushed)} {left : List (String × Value)}
    (h : Leaves ps left) : (left.map Prod.fst).Sublist (ps.map Prod.fst) := by
  induction ps generalizing left with
  | nil => cases h; exact .slnil
  | cons p ps ih =>
    cases h with
    | zero _ rest => exact (ih rest).cons _
    | entry _ _ rest => exact (ih rest).cons_cons _

theorem Leaves.holds_toValue {ps : List (String × Pushed)} {left : List (String × Value)}
    (h : Leaves ps left) (keys : (ps.map Prod.fst).Nodup) :
    Holds (.record ps) (Entries.toValue ⟨left⟩) :=
  .record h (sortByKey_perm left).symm (ascending_sortByKey (keys.sublist h.keys_sublist))

/-- A push appends its entry unless it is zero. -/
def Appends (x : Pushed) : Prop :=
  ∀ key es, x.Zero ∧ x.push key es = es ∨ ¬ x.Zero ∧ x.push key es = ⟨es.list ++ [(key, x.write)]⟩

theorem appends_of_writer {τ : Type} {x : Pushed} (w : Writer τ) (a : τ)
    (zero : w.isZero a = true ↔ x.Zero) (push : ∀ key es, x.push key es = es.push w key a)
    (write : x.write = w.write a) : x.Appends := by
  intro key es
  rw [push, write, ← zero, Entries.push]
  by_cases h : w.isZero a = true
  · rw [if_pos h]
    exact .inl ⟨h, rfl⟩
  · rw [if_neg h]
    exact .inr ⟨h, rfl⟩

theorem appends_record {ps : List (String × Pushed)} {left : List (String × Value)}
    (run : Entries.pushAll ps .empty = ⟨left⟩) (leaves : Leaves ps left) : (record ps).Appends := by
  refine appends_of_writer .record (Entries.pushAll ps .empty) ?_ (fun _ _ => rfl) rfl
  rw [← leaves.eq_nil_iff, run]
  exact List.isEmpty_iff

mutual

theorem appends (x : Pushed) (h : x.Distinct) : x.Appends := by
  cases x with
  | uint n => exact appends_of_writer .uint n (by simp [Writer.uint]) (fun _ _ => rfl) rfl
  | bool b => exact appends_of_writer .bool b (by simp [Writer.bool]) (fun _ _ => rfl) rfl
  | text s => exact appends_of_writer .text s (by simp [Writer.text]) (fun _ _ => rfl) rfl
  | blob bs => exact appends_of_writer .blob bs (by simp [Writer.blob]) (fun _ _ => rfl) rfl
  | fixed n x =>
    refine appends_of_writer (.sized n) x ?_ (fun _ _ => rfl) rfl
    simp [Writer.sized, Sized.isZero, Bytes.allZero]
  | record ps =>
    cases h with
    | record _ inside =>
      obtain ⟨left, run, leaves⟩ := leaves_pushAll ps inside .empty
      exact appends_record run leaves
  | list xs =>
    refine appends_of_writer (.list .verbatim) (writeItems xs) ?_ (fun _ _ => rfl) rfl
    cases xs <;> simp [Writer.list, writeItems]

theorem holds_write (x : Pushed) (h : x.Distinct) : Holds x x.write := by
  cases x with
  | uint n => exact .uint n
  | bool b => exact .bool b
  | text s => exact .text s
  | blob bs => exact .blob bs
  | fixed n x => exact .fixed x
  | record ps =>
    cases h with
    | record keys inside =>
      obtain ⟨left, run, leaves⟩ := leaves_pushAll ps inside .empty
      rw [write, run]
      exact leaves.holds_toValue keys
  | list xs =>
    cases h with
    | list inside =>
      rw [write]
      simp only [Writer.list, Writer.verbatim, List.map_id_fun, id_eq]
      exact .list (holdsItems_writeItems xs inside)

theorem leaves_pushAll (ps : List (String × Pushed)) (h : ∀ p ∈ ps, p.2.Distinct) (es : Entries) :
    ∃ left, Entries.pushAll ps es = ⟨es.list ++ left⟩ ∧ Leaves ps left := by
  cases ps with
  | nil => exact ⟨[], by simp [Entries.pushAll], .nil⟩
  | cons p ps =>
    obtain ⟨key, x⟩ := p
    rw [List.forall_mem_cons] at h
    rw [Entries.pushAll, Entries.pushOne]
    rcases appends x h.1 key es with ⟨zero, same⟩ | ⟨some, grown⟩
    · obtain ⟨left, run, leaves⟩ := leaves_pushAll ps h.2 es
      rw [same]
      exact ⟨left, run, .zero zero leaves⟩
    · obtain ⟨left, run, leaves⟩ := leaves_pushAll ps h.2 ⟨es.list ++ [(key, x.write)]⟩
      rw [grown, run]
      exact ⟨(key, x.write) :: left, by simp, .entry some (holds_write x h.1) leaves⟩

theorem holdsItems_writeItems (xs : List Pushed) (h : ∀ x ∈ xs, x.Distinct) :
    HoldsItems xs (writeItems xs) := by
  cases xs with
  | nil => exact .nil
  | cons x xs =>
    rw [List.forall_mem_cons] at h
    exact .cons (holds_write x h.1) (holdsItems_writeItems xs h.2)

end

/-! ## Nothing else is left -/

mutual

theorem Holds.unique (x : Pushed) {v w : Value} (hv : Holds x v) (hw : Holds x w) : v = w := by
  cases x with
  | record ps =>
    cases hv with
    | record leaves perm ascending =>
      cases hw with
      | record leaves' perm' ascending' =>
        -- The same entries in two orders, and only one order ascends.
        obtain rfl := Leaves.unique ps leaves leaves'
        rw [ascending.eq_of_perm ascending' (perm.symm.trans perm')]
  | list xs =>
    cases hv with
    | list items =>
      cases hw with
      | list items' => rw [HoldsItems.unique xs items items']
  | _ => cases hv; cases hw; rfl

theorem Leaves.unique (ps : List (String × Pushed)) {left left' : List (String × Value)}
    (h : Leaves ps left) (h' : Leaves ps left') : left = left' := by
  cases ps with
  | nil => cases h; cases h'; rfl
  | cons p ps =>
    obtain ⟨key, x⟩ := p
    cases h with
    | zero zero rest =>
      cases h' with
      | zero _ rest' => exact Leaves.unique ps rest rest'
      | entry some _ _ => exact absurd zero some
    | entry some holds rest =>
      cases h' with
      | zero zero _ => exact absurd zero some
      | entry _ holds' rest' => rw [Holds.unique x holds holds', Leaves.unique ps rest rest']

theorem HoldsItems.unique (xs : List Pushed) {vs ws : List Value} (h : HoldsItems xs vs)
    (h' : HoldsItems xs ws) : vs = ws := by
  cases xs with
  | nil => cases h; cases h'; rfl
  | cons x xs =>
    cases h with
    | cons holds rest =>
      cases h' with
      | cons holds' rest' => rw [Holds.unique x holds holds', HoldsItems.unique xs rest rest']

end

/-! ## The order of pushes -/

theorem Leaves.of_perm {ps qs : List (String × Pushed)} (perm : ps.Perm qs)
    {left : List (String × Value)} (h : Leaves ps left) :
    ∃ left', Leaves qs left' ∧ left.Perm left' := by
  induction perm generalizing left with
  | nil => exact ⟨left, h, .refl _⟩
  | cons p _ ih =>
    cases h with
    | zero zero rest =>
      obtain ⟨left', leaves, perm⟩ := ih rest
      exact ⟨left', .zero zero leaves, perm⟩
    | entry some holds rest =>
      obtain ⟨left', leaves, perm⟩ := ih rest
      exact ⟨_, .entry some holds leaves, perm.cons _⟩
  | swap p q ps =>
    cases h with
    | zero zero rest =>
      cases rest with
      | zero zero' rest => exact ⟨_, .zero zero' (.zero zero rest), .refl _⟩
      | entry some holds rest => exact ⟨_, .entry some holds (.zero zero rest), .refl _⟩
    | entry some holds rest =>
      cases rest with
      | zero zero rest => exact ⟨_, .zero zero (.entry some holds rest), .refl _⟩
      | entry some' holds' rest =>
        exact ⟨_, .entry some' holds' (.entry some holds rest), .swap _ _ _⟩
  | trans _ _ ih₁ ih₂ =>
    obtain ⟨left₁, leaves₁, perm₁⟩ := ih₁ h
    obtain ⟨left₂, leaves₂, perm₂⟩ := ih₂ leaves₁
    exact ⟨left₂, leaves₂, perm₁.trans perm₂⟩

theorem ReorderedEach.keys_eq {ps qs : List (String × Pushed)} (h : ReorderedEach ps qs) :
    ps.map Prod.fst = qs.map Prod.fst := by
  induction ps generalizing qs with
  | nil => cases h; rfl
  | cons p ps ih =>
    cases h with
    | cons _ rest => simp [ih rest]

mutual

theorem Reordered.zero_iff (x : Pushed) {y : Pushed} (h : Reordered x y) : x.Zero ↔ y.Zero := by
  cases h with
  | same => rfl
  | @record ps moved qs each perm =>
    rw [zero_record, zero_record, ReorderedEach.zero_iff ps each]
    exact forall_congr' fun p => imp_congr_left perm.mem_iff
  | list items => cases items <;> simp

theorem ReorderedEach.zero_iff (ps : List (String × Pushed)) {qs : List (String × Pushed)}
    (h : ReorderedEach ps qs) : (∀ p ∈ ps, p.2.Zero) ↔ ∀ q ∈ qs, q.2.Zero := by
  cases ps with
  | nil => cases h; rfl
  | cons p ps =>
    obtain ⟨key, x⟩ := p
    cases h with
    | cons same rest =>
      rw [List.forall_mem_cons, List.forall_mem_cons, ReorderedEach.zero_iff ps rest]
      exact and_congr_left fun _ => Reordered.zero_iff x same

end

mutual

theorem Reordered.distinct (x : Pushed) {y : Pushed} (h : Reordered x y) (distinct : x.Distinct) :
    y.Distinct := by
  cases h with
  | same => exact distinct
  | @record ps moved qs each perm =>
    cases distinct with
    | record keys inside =>
      rw [each.keys_eq] at keys
      refine .record ((perm.map Prod.fst).nodup_iff.mp keys) fun q hq => ?_
      exact ReorderedEach.distinct ps each inside q (perm.mem_iff.mpr hq)
  | @list xs ys items =>
    cases distinct with
    | list inside => exact .list (ReorderedItems.distinct xs items inside)

theorem ReorderedEach.distinct (ps : List (String × Pushed)) {qs : List (String × Pushed)}
    (h : ReorderedEach ps qs) (inside : ∀ p ∈ ps, p.2.Distinct) : ∀ q ∈ qs, q.2.Distinct := by
  cases ps with
  | nil => cases h; exact nofun
  | cons p ps =>
    obtain ⟨key, x⟩ := p
    rw [List.forall_mem_cons] at inside
    cases h with
    | cons same rest =>
      rw [List.forall_mem_cons]
      exact ⟨Reordered.distinct x same inside.1, ReorderedEach.distinct ps rest inside.2⟩

theorem ReorderedItems.distinct (xs : List Pushed) {ys : List Pushed} (h : ReorderedItems xs ys)
    (inside : ∀ x ∈ xs, x.Distinct) : ∀ y ∈ ys, y.Distinct := by
  cases xs with
  | nil => cases h; exact nofun
  | cons x xs =>
    rw [List.forall_mem_cons] at inside
    cases h with
    | cons same rest =>
      rw [List.forall_mem_cons]
      exact ⟨Reordered.distinct x same inside.1, ReorderedItems.distinct xs rest inside.2⟩

end

mutual

/-- Pushes in another order stand for the same value. -/
theorem Reordered.holds (x : Pushed) {y : Pushed} (h : Reordered x y) {v : Value}
    (holds : Holds x v) : Holds y v := by
  cases h with
  | same => exact holds
  | @record ps moved qs each perm =>
    cases holds with
    | record leaves sorted ascending =>
      obtain ⟨left', leaves', perm'⟩ := (ReorderedEach.leaves ps each leaves).of_perm perm
      exact .record leaves' (perm'.symm.trans sorted) ascending
  | @list xs ys items =>
    cases holds with
    | list stand => exact .list (ReorderedItems.holds xs items stand)

theorem ReorderedEach.leaves (ps : List (String × Pushed)) {qs : List (String × Pushed)}
    (h : ReorderedEach ps qs) {left : List (String × Value)} (leaves : Leaves ps left) :
    Leaves qs left := by
  cases ps with
  | nil => cases h; exact leaves
  | cons p ps =>
    obtain ⟨key, x⟩ := p
    cases h with
    | cons same rest =>
      cases leaves with
      | zero zero left =>
        exact .zero ((Reordered.zero_iff x same).mp zero) (ReorderedEach.leaves ps rest left)
      | entry some holds left =>
        exact .entry (fun zero => some ((Reordered.zero_iff x same).mpr zero))
          (Reordered.holds x same holds) (ReorderedEach.leaves ps rest left)

theorem ReorderedItems.holds (xs : List Pushed) {ys : List Pushed} (h : ReorderedItems xs ys)
    {vs : List Value} (items : HoldsItems xs vs) : HoldsItems ys vs := by
  cases xs with
  | nil => cases h; exact items
  | cons x xs =>
    cases h with
    | cons same rest =>
      cases items with
      | cons holds items =>
        exact .cons (Reordered.holds x same holds) (ReorderedItems.holds xs rest items)

end

theorem Reordered.write_eq {x y : Pushed} (h : Reordered x y) (distinct : x.Distinct) :
    x.write = y.write :=
  Holds.unique y (h.holds x (holds_write x distinct)) (holds_write y (h.distinct x distinct))

end Pushed

open Pushed

/-- Pushes of distinct keys give bytes that do not depend on their order. They hold one map of
ascending keys, with one entry for each push that is not zero and no other. -/
theorem pushAll_canonical {ps : List (String × Pushed)} (distinct : (Pushed.record ps).Distinct) :
    (∀ qs, Reordered (.record ps) (.record qs) →
      (Entries.pushAll qs .empty).toBytes = (Entries.pushAll ps .empty).toBytes) ∧
    (Fits Limits.nesting (Entries.pushAll ps .empty).toValue →
      ∃ es left, parse (Entries.pushAll ps .empty).toBytes = .ok (.map es) ∧ Ascending es ∧
        Leaves ps left ∧ left.Perm es) := by
  refine ⟨fun qs reordered => ?_, fun fits => ?_⟩
  · exact congrArg Value.write (reordered.write_eq distinct).symm
  · have parsed : parse (Entries.pushAll ps .empty).toBytes = _ := parse_write fits
    have holds : Holds (.record ps) (Entries.pushAll ps .empty).toValue := holds_write _ distinct
    generalize (Entries.pushAll ps .empty).toValue = v at parsed holds
    cases holds with
    | @record _ left es leaves perm ascending => exact ⟨es, left, parsed, ascending, leaves, perm⟩

/-- Zeros are dropped, but not as items of a list. -/
theorem pushAll_canonical_mixed :
    let zero : String × Pushed := ("a", .fixed 2 (.zero 2))
    let list : String × Pushed := ("c", .list [.uint 0, .record [("x", .bool false)]])
    let ps : List (String × Pushed) := [list, ("b", .record [("z", .uint 0), ("y", .text "q")]), zero]
    let qs : List (String × Pushed) := [("b", .record [("y", .text "q"), ("z", .uint 0)]), list, zero]
    let es : List (String × Value) :=
      [("b", .map [("y", .str "q")]), ("c", .array [.uint 0, .map []])]
    (Pushed.record ps).Distinct ∧ Reordered (.record ps) (.record qs) ∧
      Fits Limits.nesting (Entries.pushAll ps .empty).toValue ∧
      parse (Entries.pushAll qs .empty).toBytes = .ok (.map es) ∧
      ∃ left, Leaves ps left ∧ left.Perm es := by
  intro zero list ps qs es
  have distinct : (Pushed.record ps).Distinct := by
    refine .record (by decide) ?_
    simp only [ps, List.forall_mem_cons]
    refine ⟨.list ?_, .record (by decide) ?_, .fixed 2 _, nofun⟩
    · simp only [List.forall_mem_cons]
      exact ⟨.uint 0, .record (by decide) (by simp [Distinct.bool]), nofun⟩
    · simp [Distinct.uint, Distinct.text]
  have reordered : Reordered (.record ps) (.record qs) :=
    .record (.cons (.same _) (.cons (.record (.cons (.same _) (.cons (.same _) .nil)) (.swap _ _ _))
      (.cons (.same _) .nil))) (.swap _ _ _)
  have fits : Fits Limits.nesting (Entries.pushAll ps .empty).toValue := by
    show Fits Limits.nesting (.map es)
    refine .map (by decide) (by decide) ?_
    simp only [es, List.forall_mem_cons]
    refine ⟨.map (by decide) (by decide) ?_, .array (by decide) ?_, nofun⟩
    · simp only [List.forall_mem_cons]
      exact ⟨.str (by decide), nofun⟩
    · simp only [List.forall_mem_cons]
      exact ⟨.uint 0, .map (by decide) nofun nofun, nofun⟩
  obtain ⟨same, left⟩ := pushAll_canonical distinct
  obtain ⟨es', left, parsed, -, leaves, perm⟩ := left fits
  have is : parse (Entries.pushAll ps .empty).toBytes = .ok (.map es) := parse_write fits
  obtain rfl : es = es' := Value.map.inj (Except.ok.inj (is.symm.trans parsed))
  exact ⟨distinct, reordered, fits, by rw [same qs reordered, is], left, leaves, perm⟩

end LedgerCodec
