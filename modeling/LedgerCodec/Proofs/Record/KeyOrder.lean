import LedgerCodec.Record.Pending
/-!
# Entries in the order of their keys

Keys are ordered by their bytes, which is a strict total order. `sortByKey`
reorders entries and puts them in ascending order if no key repeats, and there
is only one such order: `sortByKey_eq_of_perm`. What a key stands for does not
depend on the order either: `lookup_eq_of_perm`.
-/

namespace LedgerCodec

/-! ## The order of keys -/

theorem keyBefore_iff {a b : String} : keyBefore a b = true ↔ utf8 a < utf8 b := by
  simp [keyBefore]

theorem keyBefore_irrefl (a : String) : ¬ keyBefore a a = true := by
  rw [keyBefore_iff]
  exact List.lex_irrefl (fun _ => UInt8.lt_irrefl _) _

theorem keyBefore_trans {a b c : String} (hab : keyBefore a b = true) (hbc : keyBefore b c = true) :
    keyBefore a c = true := by
  rw [keyBefore_iff] at *
  exact List.lex_trans UInt8.lt_trans hab hbc

theorem keyBefore_asymm {a b : String} (hab : keyBefore a b = true) : ¬ keyBefore b a = true :=
  fun hba => keyBefore_irrefl a (keyBefore_trans hab hba)

theorem lt_or_lt_of_ne : ∀ {a b : Bytes}, a ≠ b → a < b ∨ b < a
  | [], [], h => absurd rfl h
  | [], _ :: _, _ => .inl .nil
  | _ :: _, [], _ => .inr .nil
  | x :: xs, y :: ys, h => by
    by_cases hxy : x = y
    · subst hxy
      rcases lt_or_lt_of_ne (fun e => h (congrArg (x :: ·) e)) with hlt | hlt
      · exact .inl (.cons hlt)
      · exact .inr (.cons hlt)
    · rcases UInt8.lt_or_lt_of_ne hxy with hlt | hlt
      · exact .inl (.rel hlt)
      · exact .inr (.rel hlt)

theorem keyBefore_or_of_ne {a b : String} (h : a ≠ b) :
    keyBefore a b = true ∨ keyBefore b a = true := by
  rw [keyBefore_iff, keyBefore_iff]
  exact lt_or_lt_of_ne fun e => h (utf8_injective e)

/-! ## Ascending entries -/

variable {α : Type}

/-- The keys stand in strictly ascending order of their bytes. -/
def Ascending (entries : List (String × α)) : Prop :=
  entries.Pairwise fun a b => keyBefore a.1 b.1 = true

instance (entries : List (String × α)) : Decidable (Ascending entries) :=
  inferInstanceAs (Decidable (entries.Pairwise fun a b => keyBefore a.1 b.1 = true))

theorem Ascending.nodup {entries : List (String × α)} (h : Ascending entries) :
    (entries.map Prod.fst).Nodup := by
  refine List.pairwise_map.mpr (h.imp fun hab e => ?_)
  rw [e] at hab
  exact keyBefore_irrefl _ hab

/-- Two orders of the same entries are the same if both are ascending. -/
theorem Ascending.eq_of_perm {l l' : List (String × α)} (h : Ascending l) (h' : Ascending l')
    (hp : l.Perm l') : l = l' :=
  hp.eq_of_pairwise (fun _ _ _ _ hab hba => absurd hba (keyBefore_asymm hab)) h h'

/-! ## Sorting -/

theorem insertByKey_perm (entry : String × α) (entries : List (String × α)) :
    (insertByKey entry entries).Perm (entry :: entries) := by
  induction entries with
  | nil => exact .refl _
  | cons first rest ih =>
    unfold insertByKey
    split
    · exact (ih.cons first).trans (.swap _ _ _)
    · exact .refl _

theorem sortByKey_perm (entries : List (String × α)) : (sortByKey entries).Perm entries := by
  induction entries with
  | nil => exact .refl _
  | cons entry entries ih => exact (insertByKey_perm entry _).trans (ih.cons entry)

theorem ascending_insertByKey {entry : String × α} {entries : List (String × α)}
    (h : Ascending entries) (new : entry.1 ∉ entries.map Prod.fst) :
    Ascending (insertByKey entry entries) := by
  induction entries with
  | nil => exact List.pairwise_singleton _ _
  | cons first rest ih =>
    obtain ⟨hfirst, hrest⟩ := List.pairwise_cons.mp h
    rw [List.map_cons, List.mem_cons, not_or] at new
    unfold insertByKey
    split
    -- The new entry goes further back, and `first` stays before everything.
    · rename_i before
      refine List.pairwise_cons.mpr ⟨fun e he => ?_, ih hrest new.2⟩
      rcases List.mem_cons.mp ((insertByKey_perm entry rest).mem_iff.mp he) with rfl | he
      · exact before
      · exact hfirst e he
    -- The keys differ, so the new one is before `first` and whatever comes after that.
    · rename_i before
      have after : keyBefore entry.1 first.1 = true :=
        (keyBefore_or_of_ne new.1).resolve_right before
      refine List.pairwise_cons.mpr ⟨fun e he => ?_, h⟩
      rcases List.mem_cons.mp he with rfl | he
      · exact after
      · exact keyBefore_trans after (hfirst e he)

theorem ascending_sortByKey {entries : List (String × α)} (h : (entries.map Prod.fst).Nodup) :
    Ascending (sortByKey entries) := by
  induction entries with
  | nil => exact .nil
  | cons entry entries ih =>
    obtain ⟨new, rest⟩ := List.nodup_cons.mp h
    exact ascending_insertByKey (ih rest)
      fun old => new (((sortByKey_perm entries).map Prod.fst).mem_iff.mp old)

/-- Sorting forgets the order of entries whose keys do not repeat. -/
theorem sortByKey_eq_of_perm {l l' : List (String × α)} (h : (l.map Prod.fst).Nodup)
    (hp : l.Perm l') : sortByKey l = sortByKey l' := by
  have h' : (l'.map Prod.fst).Nodup := (hp.map Prod.fst).nodup_iff.mp h
  refine (ascending_sortByKey h).eq_of_perm (ascending_sortByKey h') ?_
  exact (sortByKey_perm l).trans (hp.trans (sortByKey_perm l').symm)

theorem sortByKey_of_ascending {entries : List (String × α)} (h : Ascending entries) :
    sortByKey entries = entries :=
  (ascending_sortByKey h.nodup).eq_of_perm h (sortByKey_perm entries)

/-- Entries are determined by which ones there are, once they are ascending. -/
theorem sortByKey_eq_of_mem_iff {l es : List (String × α)} (h : (l.map Prod.fst).Nodup)
    (ascending : Ascending es) (same : ∀ e, e ∈ l ↔ e ∈ es) : sortByKey l = es := by
  have distinct {l : List (String × α)} (h : (l.map Prod.fst).Nodup) : l.Nodup :=
    List.Pairwise.of_map Prod.fst (fun _ _ hne e => hne (congrArg Prod.fst e)) h
  have perm : l.Perm es :=
    (List.perm_ext_iff_of_nodup (distinct h) (distinct ascending.nodup)).mpr same
  rw [sortByKey_eq_of_perm h perm, sortByKey_of_ascending ascending]

/-! ## Looking a key up -/

theorem lookup_eq_some {entries : List (String × α)} (h : (entries.map Prod.fst).Nodup)
    {key : String} {v : α} : entries.lookup key = some v ↔ (key, v) ∈ entries := by
  induction entries with
  | nil => simp
  | cons entry entries ih =>
    obtain ⟨new, rest⟩ := List.nodup_cons.mp h
    obtain ⟨k, w⟩ := entry
    by_cases e : key = k
    · subst e
      have absent : (key, v) ∉ entries := fun hm => new (List.mem_map.mpr ⟨_, hm, rfl⟩)
      simp [absent, eq_comm]
    · have e' : (key == k) = false := by simpa using e
      rw [List.lookup_cons, e', List.mem_cons, ih rest]
      simp [e]

theorem mem_of_lookup {entries : List (String × α)} {key : String} {v : α}
    (h : entries.lookup key = some v) : (key, v) ∈ entries := by
  obtain ⟨before, after, rfl, -⟩ := List.lookup_eq_some_iff.mp h
  simp

theorem lookup_eq_none {entries : List (String × α)} {key : String} :
    entries.lookup key = none ↔ key ∉ entries.map Prod.fst := by
  rw [List.lookup_eq_none_iff]
  refine ⟨fun h hm => ?_, fun h e he => ?_⟩
  · obtain ⟨e, he, rfl⟩ := List.mem_map.mp hm
    simpa using h e he
  · simpa using fun eq => h (List.mem_map.mpr ⟨e, he, Eq.symm eq⟩)

/-- What a key stands for does not depend on the order of the entries. -/
theorem lookup_eq_of_perm {l l' : List (String × α)} (h : (l.map Prod.fst).Nodup) (hp : l.Perm l')
    (key : String) : l.lookup key = l'.lookup key := by
  have h' : (l'.map Prod.fst).Nodup := (hp.map Prod.fst).nodup_iff.mp h
  refine Option.ext fun v => ?_
  rw [lookup_eq_some h, lookup_eq_some h', hp.mem_iff]

theorem lookup_append_left {a b : List (String × α)} {key : String}
    (h : key ∉ b.map Prod.fst) : (a ++ b).lookup key = a.lookup key := by
  rw [List.lookup_append, lookup_eq_none.mpr h, Option.or_none]

theorem lookup_append_right {a b : List (String × α)} {key : String}
    (h : key ∉ a.map Prod.fst) : (a ++ b).lookup key = b.lookup key := by
  rw [List.lookup_append, lookup_eq_none.mpr h, Option.none_or]

theorem lookup_filter_of_true {entries : List (String × α)} {p : String → Bool} {key : String}
    (h : p key = true) : (entries.filter fun e => p e.1).lookup key = entries.lookup key := by
  induction entries with
  | nil => rfl
  | cons entry entries ih =>
    obtain ⟨k, w⟩ := entry
    by_cases e : key = k
    · subst e; simp [h]
    · have e' : (key == k) = false := by simpa using e
      rw [List.filter_cons, List.lookup_cons, e']
      split
      · rw [List.lookup_cons, e', ih]
      · exact ih

/-! ## One more entry -/

section

variable {before after : List (String × α)} {key : String} {v : α}

theorem nodup_keys_insert (distinct : ((before ++ after).map Prod.fst).Nodup)
    (fresh : key ∉ (before ++ after).map Prod.fst) :
    ((before ++ (key, v) :: after).map Prod.fst).Nodup :=
  (List.perm_middle.map Prod.fst).nodup_iff.mpr (List.nodup_cons.mpr ⟨fresh, distinct⟩)

/-- A key that was absent holds the new value, the others what they held. -/
theorem lookup_insert (fresh : key ∉ (before ++ after).map Prod.fst) (k : String) :
    (before ++ (key, v) :: after).lookup k =
      if k = key then some v else (before ++ after).lookup k := by
  have absent : key ∉ before.map Prod.fst := fun h => fresh (by simp [h])
  by_cases here : k = key
  · subst here
    rw [if_pos rfl, lookup_append_right absent, List.lookup_cons_self]
  · rw [if_neg here, List.lookup_append, List.lookup_append, List.lookup_cons,
      beq_eq_false_iff_ne.mpr here]

end

end LedgerCodec
