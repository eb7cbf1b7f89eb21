/-!
# Layouts of records

A record is described once, by a tree of its fields; what a field carries is the
parameter `F`. The values of all fields together are a row: nested pairs in the
shape of the tree. Whatever reads or writes records walks over the tree.
-/

namespace LedgerCodec

/-- The fields of a record whose row has the type that the layout ends in. -/
inductive Layout (F : Type → Type) : Type → Type 1
  | field {τ : Type} (f : F τ) : Layout F τ
  | both {σ τ : Type} (first : Layout F σ) (second : Layout F τ) : Layout F (σ × τ)

namespace Layout

variable {F G : Type → Type}

/-- The layout with other data for each field. -/
def map (g : {τ : Type} → F τ → G τ) : {σ : Type} → Layout F σ → Layout G σ
  | _, field f => field (g f)
  | _, both first second => both (first.map g) (second.map g)

/-- What `g` gives for each field, in order. -/
def collect {α : Type} (g : {τ : Type} → F τ → α) : {σ : Type} → Layout F σ → List α
  | _, field f => [g f]
  | _, both first second => first.collect g ++ second.collect g

def size : {σ : Type} → Layout F σ → Nat
  | _, field _ => 1
  | _, both first second => first.size + second.size

theorem length_collect {α : Type} (g : {τ : Type} → F τ → α) {σ : Type} (l : Layout F σ) :
    (l.collect g).length = l.size := by
  induction l with
  | field f => rfl
  | both first second ih₁ ih₂ => simp [collect, size, ih₁, ih₂]

end Layout

end LedgerCodec
