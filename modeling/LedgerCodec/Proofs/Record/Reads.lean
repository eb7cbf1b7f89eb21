import LedgerCodec.Proofs.Record.Laws
/-!
# Runs of reads

Whoever reads a record takes its fields out of the pending entries one by one, in
any order, and may go on when a field cannot be read. A call takes out the entry
of its key and looks at no other, so after any run of calls the entries left are
those of keys that were not called for: `after_eq`. What a call gives depends on
whether its key came before, and on the entry of that key: `read_run`.
-/

namespace LedgerCodec

open Wire

/-- A call: the key that is asked for, and how its value is read. -/
structure Call where
  {τ : Type}
  reader : Reader τ
  key : String

namespace Pending

/-! ## One call -/

/-- What a call gives. -/
def result (c : Call) (p : Pending) : Except Error c.τ := (p.read c.reader c.key).1

theorem result_eq (c : Call) (p : Pending) : p.result c = c.reader.ofHeld c.key (p.find? c.key) := by
  rw [result, read_eq]

theorem result_congr {c : Call} {p q : Pending} (h : p.find? c.key = q.find? c.key) :
    p.result c = q.result c := by
  rw [result_eq, result_eq, h]

theorem find?_congr {p q : Pending} {key : String}
    (h : p.entries.lookup key = q.entries.lookup key) : p.find? key = q.find? key := by
  rw [find?, find?, h]

theorem find?_of_mem {es : List (String × Value)} (distinct : (es.map Prod.fst).Nodup)
    {key : String} {v : Value} (h : (key, v) ∈ es) :
    (⟨es⟩ : Pending).find? key = (⟨[(key, v)]⟩ : Pending).find? key := by
  refine find?_congr ?_
  rw [(lookup_eq_some distinct).mpr h, List.lookup_cons_self]

theorem find?_of_notMem {p : Pending} {key : String} (h : key ∉ p.entries.map Prod.fst) :
    p.find? key = none := by
  refine (find?_congr (q := empty) ?_).trans rfl
  rw [lookup_eq_none.mpr h]
  rfl

theorem find?_of_nothing {es : List (String × Value)} (distinct : (es.map Prod.fst).Nodup)
    {key : String} (h : key ∉ es.map Prod.fst ∨ (key, .nil) ∈ es) :
    (⟨es⟩ : Pending).find? key = none := by
  rcases h with absent | nothing
  · exact find?_of_notMem absent
  · rw [find?, (lookup_eq_some distinct).mpr nothing]

/-! ## Many calls -/

/-- The entries that calls leave, one after the other, whether they fail or not. -/
def after (calls : List Call) (p : Pending) : Pending :=
  calls.foldl (fun p c => (p.read c.reader c.key).2) p

theorem after_cons (c : Call) (calls : List Call) (p : Pending) :
    p.after (c :: calls) = (p.without [c.key]).after calls := by
  rw [after, List.foldl_cons, read_eq, ← after]

theorem after_eq (calls : List Call) (p : Pending) :
    p.after calls = p.without (calls.map Call.key) := by
  induction calls generalizing p with
  | nil =>
    show p = ⟨p.entries.filter fun _ => true⟩
    rw [List.filter_eq_self.mpr fun _ _ => rfl]
  | cons c calls ih =>
    rw [after_cons, ih, without_without, List.map_cons, List.singleton_append]

theorem mem_after {calls : List Call} {p : Pending} {e : String × Value} :
    e ∈ (p.after calls).entries ↔ e ∈ p.entries ∧ e.1 ∉ calls.map Call.key := by
  rw [after_eq, mem_without]

theorem find?_after_of_called {calls : List Call} {p : Pending} {key : String}
    (h : key ∈ calls.map Call.key) : (p.after calls).find? key = none := by
  refine find?_of_notMem fun left => ?_
  obtain ⟨e, he, rfl⟩ := List.mem_map.mp left
  exact (mem_after.mp he).2 h

theorem ascending_after {calls : List Call} {p : Pending} (h : Ascending p.entries) :
    Ascending (p.after calls).entries := by
  rw [after_eq]
  exact h.filter _

/-- What holds of the entries `p` that a run of calls leaves of the entries `es` of a map. -/
structure Run (es : List (String × Value)) (calls : List Call) (p : Pending) : Prop where
  /-- The first call for a key gives what it gives if there is no other entry. -/
  first (c : Call) (v : Value) :
    (c.key, v) ∈ es → c.key ∉ calls.map Call.key → p.result c = result c ⟨[(c.key, v)]⟩
  /-- A call for a key that holds nothing, or is absent, gives what it gives on no entries. -/
  nothing (c : Call) : c.key ∉ es.map Prod.fst ∨ (c.key, .nil) ∈ es → p.result c = result c empty
  /-- So does every later call for a key. -/
  later (c : Call) : c.key ∈ calls.map Call.key → p.result c = result c empty
  /-- The entries left are those of keys that were not called for. -/
  mem_drain (e : String × Value) : e ∈ p.drain.1 ↔ e ∈ es ∧ e.1 ∉ calls.map Call.key
  ascending : Ascending p.drain.1
  drained : p.drain.2 = empty
  /-- Finishing succeeds exactly if none are left. -/
  finish_ok : p.finish = .ok () ↔ ∀ e ∈ es, e.1 ∈ calls.map Call.key
  /-- Else it names the least key that was not called for. -/
  finish_error (err : Error) : p.finish = .error err →
    ∃ e ∈ es, e.1 ∉ calls.map Call.key ∧ err = .unknownField e.1 ∧
      ∀ e' ∈ es, e'.1 ∉ calls.map Call.key → e' ≠ e → keyBefore e.1 e'.1 = true

/-- Any calls, in any order, read the entries of a map without repeated keys one by one. -/
theorem read_run {es : List (String × Value)} (distinct : (es.map Prod.fst).Nodup) (root : String)
    (calls : List Call) : ∃ p, ofValue root (.map es) = .ok p ∧ Run es calls (p.after calls) := by
  have mem (e : String × Value) : e ∈ (Pending.after calls ⟨sortByKey es⟩).entries ↔
      e ∈ es ∧ e.1 ∉ calls.map Call.key := by
    rw [mem_after, (sortByKey_perm es).mem_iff]
  have ascending : Ascending (Pending.after calls ⟨sortByKey es⟩).entries :=
    ascending_after (ascending_sortByKey distinct)
  have fresh {key : String} (h : key ∉ calls.map Call.key) :
      (Pending.after calls ⟨sortByKey es⟩).find? key = (⟨es⟩ : Pending).find? key := by
    rw [after_eq, find?_without h, find?_sortByKey distinct]
  have later (c : Call) (called : c.key ∈ calls.map Call.key) :
      (Pending.after calls ⟨sortByKey es⟩).result c = result c empty :=
    result_congr (find?_after_of_called called)
  refine ⟨⟨sortByKey es⟩, ofValue_map root distinct, ?_, ?_, later, mem, ascending, rfl, ?_, ?_⟩
  · intro c v here h
    exact result_congr ((fresh h).trans (find?_of_mem distinct here))
  · intro c nothing
    by_cases called : c.key ∈ calls.map Call.key
    · exact later c called
    · exact result_congr ((fresh called).trans (find?_of_nothing distinct nothing))
  · rw [finish_eq_ok, List.eq_nil_iff_forall_not_mem]
    simp only [mem, not_and, Decidable.not_not]
  · intro err h
    obtain ⟨first, rest, left, rfl⟩ := finish_eq_error.mp h
    rw [left] at ascending
    obtain ⟨least, -⟩ := List.pairwise_cons.mp ascending
    obtain ⟨here, other⟩ := (mem first).mp (left ▸ List.mem_cons_self)
    refine ⟨first, here, other, rfl, fun e he other different => ?_⟩
    have later : e ∈ first :: rest := left ▸ (mem e).mpr ⟨he, other⟩
    exact least e ((List.mem_cons.mp later).resolve_left different)

/-- The call that fails has taken its entry out, as the call that reads nothing has. -/
theorem read_run_failing :
    ["zz", "n", "s"].Nodup ∧
      ∃ p, ofValue rootKey (.map [("zz", .uint 2), ("n", .nil), ("s", .uint 1)]) = .ok p ∧
        Run [("zz", .uint 2), ("n", .nil), ("s", .uint 1)]
          [⟨.text, "s"⟩, ⟨.uint, "n"⟩, ⟨.uint, "s"⟩]
          (p.after [⟨.text, "s"⟩, ⟨.uint, "n"⟩, ⟨.uint, "s"⟩]) :=
  ⟨by decide, read_run (by decide) rootKey _⟩

end Pending

end LedgerCodec
