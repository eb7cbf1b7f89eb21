import Mathlib.Data.List.Forall2
import LedgerCodec.Proofs.Txn.Binding
/-!
# Groups and their members

A group is made of its members outside any group, so what groups they already
belong to makes no difference: `Group.assign_stable` says what comes of computing
and assigning a digest. The digest in turn stands for these members in their
order, and is the id of no transaction, unless two byte strings collide under the
hash: `Group.digest_binds`.
-/

namespace LedgerCodec

open Wire

/-! ## Members outside any group -/

namespace Transaction

theorem Small.withoutGroup {t : Transaction} (small : t.Small) : t.withoutGroup.Small where
  header := ⟨small.header.note, small.header.genesisId⟩
  payload := small.payload

end Transaction

namespace Group

variable {ts us as bs : List Transaction} {e : Error}

/-- The group of some transactions, however many they are. -/
def ofAll (ts : List Transaction) : Group :=
  ⟨ts.map fun t => t.withoutGroup.id.digest⟩

/-- Why some transactions make no group. -/
def Refused (ts : List Transaction) (e : Error) : Prop :=
  ts = [] ∧ e = .emptyGroup ∨ 16 < ts.length ∧ e = .groupTooLarge ts.length 16

theorem ofTransactions_of_large (large : 16 < ts.length) :
    ofTransactions ts = .error (.groupTooLarge ts.length 16) := by
  have some : ts.isEmpty = false := by
    cases ts with
    | nil => cases large
    | cons => rfl
  have above : Limits.groupSize < ts.length := large
  rw [ofTransactions, some, if_neg Bool.false_ne_true, if_pos above]
  rfl

theorem ofTransactions_eq_ok (some : ts ≠ []) (few : ts.length ≤ 16) :
    ofTransactions ts = .ok (ofAll ts) := by
  have notEmpty : ts.isEmpty = false := by simpa using some
  have notLarge : ¬ Limits.groupSize < ts.length := Nat.not_lt.mpr few
  rw [ofTransactions, notEmpty, if_neg Bool.false_ne_true, if_neg notLarge]
  rfl

theorem compute_eq_ok (some : ts ≠ []) (few : ts.length ≤ 16) :
    compute ts = .ok (ofAll ts).digest := by
  rw [compute, ofTransactions_eq_ok some few]
  rfl

theorem ofTransactions_eq_error : ofTransactions ts = .error e ↔ Refused ts e := by
  constructor
  · intro h
    by_cases none : ts = []
    · subst none
      cases h
      exact .inl ⟨rfl, rfl⟩
    · by_cases large : 16 < ts.length
      · rw [ofTransactions_of_large large] at h
        cases h
        exact .inr ⟨large, rfl⟩
      · rw [ofTransactions_eq_ok none (Nat.not_lt.mp large)] at h
        cases h
  · rintro (⟨rfl, rfl⟩ | ⟨large, rfl⟩)
    · rfl
    · exact ofTransactions_of_large large

/-- The digest is computed unless there is no group. -/
theorem compute_eq_error : compute ts = .error e ↔ Refused ts e := by
  rw [← ofTransactions_eq_error, compute]
  cases ofTransactions ts <;> simp [Except.map]

/-- The digest is assigned unless it is not computed. -/
theorem assign_eq_error : assign ts = .error e ↔ Refused ts e := by
  rw [← compute_eq_error, assign]
  cases compute ts <;> simp [Except.map]

/-! ## The groups that members already belong to -/

/-- The same transactions in the same order, in any groups. -/
def Regrouped (ts us : List Transaction) : Prop :=
  List.Forall₂ (fun t u => ∃ d, u = t.withGroup d) ts us

theorem regrouped_map (ts : List Transaction) (d : Digest) :
    Regrouped ts (ts.map fun t => t.withGroup d) := by
  induction ts with
  | nil => exact .nil
  | cons t ts ih => exact .cons ⟨d, rfl⟩ ih

/-- What does not depend on the group of a member does not change with it. -/
theorem Regrouped.map_eq {α : Type} {f : Transaction → α}
    (free : ∀ t d, f (t.withGroup d) = f t) (h : Regrouped ts us) : us.map f = ts.map f := by
  induction h with
  | nil => rfl
  | @cons t u ts us same _ ih =>
    obtain ⟨d, rfl⟩ := same
    rw [List.map_cons, List.map_cons, free, ih]

theorem Regrouped.ofTransactions_eq (h : Regrouped ts us) :
    ofTransactions us = ofTransactions ts := by
  have length : us.length = ts.length := h.length_eq.symm
  have empty : us.isEmpty = ts.isEmpty := by
    cases h <;> rfl
  have hashes := h.map_eq (f := fun t => t.withoutGroup.id.digest) fun _ _ => rfl
  rw [ofTransactions, ofTransactions, empty, length, hashes]

theorem Regrouped.compute_eq (h : Regrouped ts us) : compute us = compute ts := by
  rw [compute, compute, h.ofTransactions_eq]

theorem Regrouped.assign_eq (h : Regrouped ts us) : assign us = assign ts := by
  have members (d : Digest) := h.map_eq (f := fun t => t.withGroup d) fun _ _ => rfl
  simp only [assign, h.compute_eq, members]

/-- Computing and assigning fail for one of two reasons. Otherwise every member gets the digest and
keeps all its other fields, and the members it has been assigned to have the same digest and get it
again. Whatever groups the members belonged to before makes no difference. -/
theorem assign_stable (ts : List Transaction) :
    (∀ e, compute ts = .error e ↔ Refused ts e) ∧
    (∀ e, assign ts = .error e ↔ Refused ts e) ∧
    (ts ≠ [] → ts.length ≤ 16 → ∃ d us, compute ts = .ok d ∧ assign ts = .ok us ∧
      us = ts.map (fun t => { t with header := { t.header with group := d } }) ∧
      compute us = .ok d ∧ assign us = .ok us) ∧
    (∀ us, Regrouped ts us → compute us = compute ts ∧ assign us = assign ts) := by
  refine ⟨fun e => compute_eq_error, fun e => assign_eq_error, ?_,
    fun us h => ⟨h.compute_eq, h.assign_eq⟩⟩
  intro some few
  have computed := compute_eq_ok some few
  have assigned : assign ts = .ok (ts.map fun t => t.withGroup (ofAll ts).digest) := by
    rw [assign, computed]
    rfl
  -- The members with their digest are the same transactions in another group.
  have regrouped := regrouped_map ts (ofAll ts).digest
  refine ⟨_, _, computed, assigned, rfl, ?_, ?_⟩
  · rw [regrouped.compute_eq, computed]
  · rw [regrouped.assign_eq, assigned]

/-- A payment that belongs to some group, and a key registration that belongs to none. -/
def mixed : List Transaction :=
  [⟨{ (default : Header) with fee := 5, group := ⟨⟨List.replicate 32 7, rfl⟩⟩ }, .payment default⟩,
   ⟨default, .keyRegistration default⟩]

/-- The two are assigned one digest that no longer changes, the same as without the group of the
first. No transactions, and seventeen of them, are assigned none. -/
theorem assign_stable_mixed :
    (∃ d us, compute mixed = .ok d ∧ assign mixed = .ok us ∧ us.map (fun t => t.header.fee) = [5, 0] ∧
      us.map (fun t => t.header.group) = [d, d] ∧ compute us = .ok d ∧ assign us = .ok us) ∧
    assign (mixed.map Transaction.withoutGroup) = assign mixed ∧
    assign [] = .error .emptyGroup ∧
    ∀ t, assign (List.replicate 17 t) = .error (.groupTooLarge 17 16) := by
  obtain ⟨-, -, assigned, regrouped⟩ := assign_stable mixed
  obtain ⟨d, us, computed, given, rfl, again, still⟩ := assigned nofun (by decide)
  refine ⟨⟨d, _, computed, given, rfl, rfl, again, still⟩, ?_, ?_, fun t => ?_⟩
  · exact (regrouped _ (regrouped_map mixed (.zero .digest))).2
  · exact ((assign_stable []).2.1 _).mpr (.inl ⟨rfl, rfl⟩)
  · have seventeen : (List.replicate 17 t).length = 17 := List.length_replicate
    refine ((assign_stable _).2.1 _).mpr (.inr ?_)
    rw [seventeen]
    exact ⟨by decide, rfl⟩

end Group

/-! ## What a digest stands for -/

/-- Two different byte strings have one hash. -/
def Collides (a b : Bytes) : Prop :=
  a ≠ b ∧ Sha512.hash a = Sha512.hash b

namespace Group

theorem hash_of_digest_eq {g h : Group} (same : g.digest = h.digest) :
    Sha512.hash g.hashed = Sha512.hash h.hashed := by
  have raw : g.digest.raw = h.digest.raw := by rw [same]
  exact (Hashed.raw_hash g).symm.trans (raw.trans (Hashed.raw_hash h))

/-- A group comes back from its canonical bytes. -/
theorem comes_back {g : Group} (short : g.hashes.length < lengthBound) :
    decode (encode g) = .ok g :=
  decode_encode_of_lawful (Record.lawful (@Group.lawful_fields 0))
    (Record.fits_toValue Group.lawful_fields (Fields.fits_entries (Group.fit short)))

/-- The bytes that are hashed determine a group. -/
theorem hashed_injective {g h : Group} (shortG : g.hashes.length < lengthBound)
    (shortH : h.hashes.length < lengthBound) (same : g.hashed = h.hashed) : g = h := by
  have encoded : encode g = encode h := tagged_injective same
  have back : (Except.ok g : Except Error Group) = .ok h :=
    calc Except.ok g
      _ = decode (encode g) := (comes_back shortG).symm
      _ = decode (encode h) := by rw [encoded]
      _ = .ok h := comes_back shortH
  exact Except.ok.inj back

theorem length_ofAll (ts : List Transaction) : (ofAll ts).hashes.length = ts.length := by
  simp [ofAll]

/-- Members with the same ids are the same outside any group, unless two at one place collide. -/
theorem members_of_ofAll_eq (smallA : ∀ t ∈ as, t.Small) (smallB : ∀ t ∈ bs, t.Small)
    (same : ofAll as = ofAll bs) :
    as.map Transaction.withoutGroup = bs.map Transaction.withoutGroup ∨
      ∃ (i : Nat) (t u : Transaction), as[i]? = some t ∧ bs[i]? = some u ∧
        Collides t.withoutGroup.signable u.withoutGroup.signable := by
  replace same : as.map (fun t => t.withoutGroup.id.digest) =
      bs.map fun t => t.withoutGroup.id.digest := congrArg Group.hashes same
  induction as generalizing bs with
  | nil =>
    cases bs with
    | nil => exact .inl rfl
    | cons u bs => cases same
  | cons t as ih =>
    cases bs with
    | nil => cases same
    | cons u bs =>
      rw [List.map_cons, List.map_cons, List.cons.injEq] at same
      obtain ⟨first, rest⟩ := same
      rw [List.forall_mem_cons] at smallA smallB
      have id : t.withoutGroup.id = u.withoutGroup.id := by
        rw [TxnId.mk.injEq]
        exact first
      -- The first two are the same or collide, and the others are the same or two of them collide.
      by_cases equal : t.withoutGroup = u.withoutGroup
      · rcases ih smallA.2 smallB.2 rest with equals | ⟨i, t', u', ht, hu, collide⟩
        · exact .inl (by rw [List.map_cons, List.map_cons, equal, equals])
        · exact .inr ⟨i + 1, t', u', ht, hu, collide⟩
      · have differ : t.withoutGroup.signable ≠ u.withoutGroup.signable := fun signed =>
          equal (Transaction.signable_injective smallA.1.withoutGroup smallB.1.withoutGroup signed)
        exact .inr ⟨0, t, u, rfl, rfl, differ, Transaction.hash_of_id_eq id⟩

/-- The digest of a group is the id of a transaction only if what is hashed for the two collides. -/
theorem collides_of_digest_eq_id {g : Group} {t : Transaction} (same : g.digest.bytes = t.id.bytes) :
    Collides g.hashed t.signable := by
  refine ⟨hashed_ne_signable g t, ?_⟩
  have raw : g.digest.raw = t.id.digest.raw := Sized.ext_bytes same
  exact (Hashed.raw_hash g).symm.trans (raw.trans (Hashed.raw_hash t))

/-- One digest for two lists of transactions means that they are the same outside any group, in the
same order, or that two byte strings collide: those hashed for the two groups, or those signed for
two members at one place. And no digest of a group is the id of a transaction, unless again two byte
strings collide. -/
theorem digest_binds (as bs : List Transaction) (someA : 1 ≤ as.length) (fewA : as.length ≤ 16)
    (someB : 1 ≤ bs.length) (fewB : bs.length ≤ 16) (smallA : ∀ t ∈ as, t.Small)
    (smallB : ∀ t ∈ bs, t.Small) :
    (∃ g h : Group, ofTransactions as = .ok g ∧ ofTransactions bs = .ok h ∧
      compute as = .ok g.digest ∧ compute bs = .ok h.digest ∧
      (compute as = compute bs →
        as.map Transaction.withoutGroup = bs.map Transaction.withoutGroup ∨
          Collides g.hashed h.hashed ∨
          ∃ (i : Nat) (t u : Transaction), as[i]? = some t ∧ bs[i]? = some u ∧
            Collides t.withoutGroup.signable u.withoutGroup.signable)) ∧
    ∀ (k : Group) (t : Transaction), k.digest.bytes = t.id.bytes →
      Collides k.hashed t.signable := by
  have makesA := ofTransactions_eq_ok (List.ne_nil_of_length_pos someA) fewA
  have makesB := ofTransactions_eq_ok (List.ne_nil_of_length_pos someB) fewB
  have computesA := compute_eq_ok (List.ne_nil_of_length_pos someA) fewA
  have computesB := compute_eq_ok (List.ne_nil_of_length_pos someB) fewB
  refine ⟨⟨_, _, makesA, makesB, computesA, computesB, fun same => ?_⟩,
    fun k t => collides_of_digest_eq_id⟩
  rw [computesA, computesB, Except.ok.injEq] at same
  by_cases hashed : (ofAll as).hashed = (ofAll bs).hashed
  · have short {ts : List Transaction} (few : ts.length ≤ 16) :
        (ofAll ts).hashes.length < lengthBound := by
      rw [length_ofAll]
      exact Nat.lt_of_le_of_lt few (by decide)
    have group : ofAll as = ofAll bs := hashed_injective (short fewA) (short fewB) hashed
    rcases members_of_ofAll_eq smallA smallB group with equal | collide
    · exact .inl equal
    · exact .inr (.inr collide)
  · exact .inr (.inl ⟨hashed, hash_of_digest_eq same⟩)

/-- Two transactions that change places change the digest, unless two byte strings collide. -/
theorem digest_binds_swapped :
    let t : Transaction := ⟨default, .payment default⟩
    let u : Transaction := ⟨default, .keyRegistration default⟩
    t.Small ∧ u.Small ∧ ∃ g h : Group, ofTransactions [t, u] = .ok g ∧ ofTransactions [u, t] = .ok h ∧
      (compute [t, u] = compute [u, t] → Collides g.hashed h.hashed ∨
        Collides t.signable u.signable ∨ Collides u.signable t.signable) := by
  intro t u
  have header : (default : Header).Small := ⟨by decide, by decide⟩
  have smallT : t.Small := ⟨header, trivial⟩
  have smallU : u.Small := ⟨header, trivial⟩
  obtain ⟨⟨g, h, makesG, makesH, -, -, binds⟩, -⟩ := digest_binds [t, u] [u, t] (by decide) (by decide)
    (by decide) (by decide) (by simp [smallT, smallU]) (by simp [smallT, smallU])
  refine ⟨smallT, smallU, g, h, makesG, makesH, fun same => ?_⟩
  rcases binds same with equal | hashed | ⟨i, t', u', ht, hu, collide⟩
  · have differ : [t, u].map Transaction.withoutGroup ≠ [u, t].map Transaction.withoutGroup := by
      decide
    exact absurd equal differ
  · exact .inl hashed
  · match i, ht, hu with
    | 0, ht, hu =>
      cases ht
      cases hu
      exact .inr (.inl collide)
    | 1, ht, hu =>
      cases ht
      cases hu
      exact .inr (.inr collide)

end Group

end LedgerCodec
