import LedgerCodec.Txn.Group
import LedgerCodec.Proofs.Hash.Pieces
/-!
# Domain separation

No tag begins with another, so bytes that are tagged come from one tag and one
string after it: `tagged_eq_tagged_iff`. What is hashed of a transaction is
therefore never what is hashed of a group, and what is signed of an object of one
kind means nothing for an object of another.
-/

namespace LedgerCodec

/-- What follows a tag is determined by the tagged bytes. -/
theorem tagged_injective {tag : String} {data data' : Bytes}
    (h : tagged tag data = tagged tag data') : data = data' :=
  List.append_cancel_left h

namespace Domain

variable {p q : String} {a b : Bytes}

/-- The tags of all kinds. -/
def tags : List String :=
  all.map tag

theorem tag_mem_tags (d : Domain) : d.tag ∈ tags := by
  have listed : d ∈ all := by
    cases d <;> decide
  exact List.mem_map_of_mem listed

/-- No tag begins with another. -/
theorem tags_prefix_free : ∀ p ∈ tags, ∀ q ∈ tags, utf8 p <+: utf8 q → p = q := by
  decide

theorem tagged_eq_tagged_iff (hp : p ∈ tags) (hq : q ∈ tags) :
    tagged p a = tagged q b ↔ p = q ∧ a = b := by
  constructor
  · intro same
    -- Both tags begin the same bytes, so the shorter begins the longer.
    have beginsP : utf8 p <+: tagged q b := ⟨a, same⟩
    have beginsQ : utf8 q <+: tagged q b := ⟨b, rfl⟩
    have tag : p = q := by
      rcases List.prefix_or_prefix_of_prefix beginsP beginsQ with short | long
      · exact tags_prefix_free p hp q hq short
      · exact (tags_prefix_free q hq p hp long).symm
    subst tag
    exact ⟨rfl, tagged_injective same⟩
  · rintro ⟨rfl, rfl⟩
    rfl

end Domain

/-- The hash of an object is the hash of the bytes that it says are hashed. -/
theorem Hashed.raw_hash {α : Type} [Canonical α] [Hashed α] (x : α) :
    (Hashed.hash x).raw = Sha512.hash (Hashed.bytes x) :=
  taggedHash_eq _ _

/-- What is hashed for a group begins with another tag than what is hashed for a transaction. -/
theorem Group.hashed_ne_signable (g : Group) (t : Transaction) : g.hashed ≠ t.signable := by
  intro same
  have tags := (Domain.tagged_eq_tagged_iff (Domain.tag_mem_tags .group)
    (Domain.tag_mem_tags .transaction)).mp same
  exact absurd tags.1 (by decide)

namespace Domain

/-- Bytes tagged from the table are the same only with the same tag and the same bytes after it, and
the tagged hash is the hash of these bytes. So nothing that is hashed for a transaction is hashed
for a group, and the hash of any object is the hash of the bytes that it says are hashed. -/
theorem separates :
    (∀ p ∈ tags, ∀ q ∈ tags, ∀ a b, tagged p a = tagged q b ↔ p = q ∧ a = b) ∧
    (∀ p ∈ tags, ∀ a, taggedHash p a = Sha512.hash (tagged p a)) ∧
    (∀ (t : Transaction) (g : Group), t.signable ≠ g.hashed) ∧
    (∀ {α : Type} [Canonical α] [Hashed α] (x : α),
      (Hashed.hash x).raw = Sha512.hash (Hashed.bytes x)) ∧
    (∀ t : Transaction, t.id.digest.raw = Sha512.hash t.signable) ∧
    ∀ g : Group, g.digest.raw = Sha512.hash g.hashed := by
  refine ⟨?_, ?_, ?_, ?_, ?_, ?_⟩
  · intro p hp q hq a b
    exact tagged_eq_tagged_iff hp hq
  · intro p _ a
    exact taggedHash_eq p a
  · intro t g same
    exact g.hashed_ne_signable t same.symm
  · intro α _ _ x
    exact Hashed.raw_hash x
  · intro t
    exact Hashed.raw_hash t
  · intro g
    exact Hashed.raw_hash g

/-- A payset and a program have tags that begin with one letter, and are hashed as different bytes
although these tags differ in length. -/
theorem separates_payset_program :
    Domain.paysetFlat.tag ∈ tags ∧ Domain.program.tag ∈ tags ∧
      tagged Domain.paysetFlat.tag (utf8 "rogram") ≠ tagged Domain.program.tag [] ∧
      taggedHash Domain.program.tag [1] = Sha512.hash (tagged Domain.program.tag [1]) := by
  obtain ⟨apart, hashed, -⟩ := separates
  have payset := tag_mem_tags .paysetFlat
  have program := tag_mem_tags .program
  refine ⟨payset, program, fun same => ?_, hashed _ program [1]⟩
  have tags := (apart _ payset _ program _ _).mp same
  exact absurd tags.1 (by decide)

end Domain

end LedgerCodec
