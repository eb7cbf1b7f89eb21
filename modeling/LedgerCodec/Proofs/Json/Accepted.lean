import LedgerCodec.Proofs.Json.Members
/-!
# What a record is read from

A record is read from members that fit its fields, and from nothing else. The
document gives these members by name, or as a list of their values in order:
`RecordForm.Gives`. They hold a row if no field stands twice, every other key may
be skipped, and each field is read or left out: `RecordForm.Holds`. Reading
succeeds exactly for such documents: `RecordForm.read_eq_ok`.
-/

namespace LedgerCodec.Json

/-- A text holds a value exactly if it is one whole document that is read as the value. -/
theorem Form.parse_eq_ok {τ : Type} {f : Form τ} {text : String} {x : τ} :
    f.parse text = .ok x ↔ ∃ d, Doc.parse text = (d, true) ∧ f.read .text d = .ok x := by
  rw [parse]
  generalize Doc.parse text = parsed
  obtain ⟨d, whole⟩ := parsed
  cases whole <;> simp [bind_eq_ok]

/-! ## Members -/

/-- Members whose keys are whole texts. -/
def named (es : List (String × Doc)) : List (Option String × Doc) :=
  es.map fun e => (some e.1, e.2)

/-- The value of a field: what its member is read as, or the one for a field that is left out. -/
def Member.Given {τ : Type} (source : Source) (es : List (String × Doc)) (m : Member τ) (y : τ) :
    Prop :=
  (∃ d, (m.name, d) ∈ es ∧ m.form.read source d = .ok y) ∨
    m.name ∉ es.map Prod.fst ∧ m.absent = some y

theorem Member.given_nil {τ : Type} {source : Source} {m : Member τ} {y : τ} :
    m.Given source [] y ↔ m.absent = some y := by
  simp [Given]

theorem Member.given_singleton {τ : Type} {source : Source} {m : Member τ} {d : Doc} {y : τ} :
    m.Given source [(m.name, d)] y ↔ m.form.read source d = .ok y := by
  simp [Given]

/-- Where no key stands twice, a field has its value if whatever stands under its key is read as
that, and it may have it if nothing does. -/
theorem Member.given_iff {τ : Type} {source : Source} {es : List (String × Doc)} {m : Member τ}
    {y : τ} (once : (es.map Prod.fst).Nodup) : m.Given source es y ↔
      (∀ d, (m.name, d) ∈ es → m.form.read source d = .ok y) ∧
        (m.name ∈ es.map Prod.fst ∨ m.absent = some y) := by
  constructor
  · rintro (⟨d, hd, read⟩ | ⟨missing, absent⟩)
    · refine ⟨fun d' hd' => ?_, .inl (List.mem_map_of_mem hd)⟩
      have one := ((lookup_eq_some once).mpr hd).symm.trans ((lookup_eq_some once).mpr hd')
      rwa [← Option.some.inj one]
    · exact ⟨fun d hd => absurd (List.mem_map_of_mem hd) missing, .inr absent⟩
  · rintro ⟨reads, present⟩
    by_cases met : m.name ∈ es.map Prod.fst
    · obtain ⟨⟨key, d⟩, hd, rfl⟩ := List.mem_map.mp met
      exact .inl ⟨d, hd, reads d hd⟩
    · exact .inr ⟨met, present.resolve_left met⟩

namespace Members

variable {σ : Type} {source : Source} {key : String} {d : Doc} {es : List (String × Doc)}

/-! ## Filling slots -/

/-- Every slot holds what the member of its field is read as, or nothing if there is none. -/
def FilledFrom (source : Source) (es : List (String × Doc)) :
    {σ : Type} → (l : Members σ) → Slots l → Prop
  | τ, .field m, slot =>
    (∀ y : τ, slot = some y → ∃ d, (m.name, d) ∈ es ∧ m.form.read source d = .ok y) ∧
      (slot = none → m.name ∉ es.map Prod.fst)
  | _, .both first second, slots =>
    let (s, t) : Slots first × Slots second := slots
    FilledFrom source es first s ∧ FilledFrom source es second t

theorem filledFrom_noSlots (l : Members σ) : FilledFrom source [] l (noSlots l) := by
  induction l with
  | field m => exact ⟨nofun, fun _ => List.not_mem_nil⟩
  | both first second ih₁ ih₂ => exact ⟨ih₁, ih₂⟩

/-- A member that is of no field changes nothing. -/
theorem FilledFrom.other {l : Members σ} {s : Slots l} (h : FilledFrom source es l s)
    (other : key ∉ names l) : FilledFrom source (es ++ [(key, d)]) l s := by
  induction l with
  | field m =>
    rw [names_field, List.mem_singleton] at other
    refine ⟨fun y hy => ?_, fun none met => ?_⟩
    · obtain ⟨d', hd', read⟩ := h.1 y hy
      exact ⟨d', List.mem_append_left _ hd', read⟩
    · rw [List.map_append, List.mem_append] at met
      rcases met with met | met
      · exact h.2 none met
      · exact other (List.mem_singleton.mp met).symm
  | both first second ih₁ ih₂ =>
    rw [names_both, List.mem_append, not_or] at other
    exact ⟨ih₁ h.1 other.1, ih₂ h.2 other.2⟩

/-- A member that is taken is new, and fills the slot of its field. -/
theorem FilledFrom.fill {l : Members σ} {s s' : Slots l} (distinct : (names l).Nodup)
    (h : FilledFrom source es l s) (taken : fill source key d l s = some (.ok s')) :
    key ∉ es.map Prod.fst ∧ FilledFrom source (es ++ [(key, d)]) l s' := by
  induction l with
  | field m =>
    unfold Members.fill at taken
    split at taken
    · rename_i same
      subst same
      split at taken
      · cases taken
      · rename_i empty
        obtain ⟨y, read, rfl⟩ := map_eq_ok.mp (Option.some.inj taken)
        refine ⟨h.2 rfl, fun z hz => ?_, nofun⟩
        cases hz
        exact ⟨d, List.mem_append_right _ List.mem_cons_self, read⟩
    · cases taken
  | both first second ih₁ ih₂ =>
    obtain ⟨s, t⟩ : Slots first × Slots second := s
    obtain ⟨distinct₁, distinct₂, apart⟩ := List.nodup_append.mp distinct
    simp only [Members.fill] at taken
    by_cases here : key ∈ names first
    · have there : key ∉ names second := fun hk => apart key here key hk rfl
      cases found : Members.fill source key d first s with
      | none =>
        rw [found, fill_of_not_mem there] at taken
        cases taken
      | some result =>
        rw [found] at taken
        obtain ⟨s', rfl, rfl⟩ := map_eq_ok.mp (Option.some.inj taken)
        obtain ⟨new, filled⟩ := ih₁ distinct₁ h.1 found
        exact ⟨new, filled, h.2.other there⟩
    · rw [fill_of_not_mem here] at taken
      cases found : Members.fill source key d second t with
      | none =>
        rw [found] at taken
        cases taken
      | some result =>
        rw [found] at taken
        obtain ⟨t', rfl, rfl⟩ := map_eq_ok.mp (Option.some.inj taken)
        obtain ⟨new, filled⟩ := ih₂ distinct₂ h.2 found
        exact ⟨new, h.1.other here, filled⟩

theorem not_mem_of_fill {l : Members σ} {s : Slots l} (h : fill source key d l s = none) :
    key ∉ names l := by
  induction l with
  | field m =>
    intro known
    rw [names_field, List.mem_singleton] at known
    cases s <;> simp [Members.fill, known] at h
  | both first second ih₁ ih₂ =>
    obtain ⟨s, t⟩ : Slots first × Slots second := s
    rw [names_both, List.mem_append, not_or]
    cases found : Members.fill source key d first s with
    | some result => simp [Members.fill, found] at h
    | none =>
      simp only [Members.fill, found, Option.map_eq_none_iff] at h
      exact ⟨ih₁ found, ih₂ h⟩

/-- A row that is made of slots has the values of its members. -/
theorem FilledFrom.given {l : Members σ} {s : Slots l} {x : σ} (h : FilledFrom source es l s)
    (made : row l s = .ok x) : l.AllOf (fun m y => m.Given source es y) x := by
  induction l with
  | field m =>
    cases s with
    | some y =>
      cases made
      exact .inl (h.1 _ rfl)
    | none =>
      cases absent : m.absent with
      | none => simp [row, absent] at made
      | some y =>
        simp only [row, absent, Except.ok.injEq] at made
        subst made
        exact .inr ⟨h.2 rfl, absent⟩
  | both first second ih₁ ih₂ =>
    obtain ⟨s, t⟩ : Slots first × Slots second := s
    obtain ⟨x, hx, made⟩ := bind_eq_ok.mp made
    obtain ⟨y, hy, made⟩ := bind_eq_ok.mp made
    cases made
    exact ⟨ih₁ h.1 hx, ih₂ h.2 hy⟩

/-! ## Members that say the same of some fields -/

theorem given_congr {l : Members σ} {es es' : List (String × Doc)} {x : σ}
    (same : ∀ e, e.1 ∈ names l → (e ∈ es ↔ e ∈ es'))
    (h : l.AllOf (fun m y => m.Given source es y) x) :
    l.AllOf (fun m y => m.Given source es' y) x := by
  have known := (l.all_mem_collect fun m => m.name).allOf x
  refine (known.and h).imp fun m y ⟨known, given⟩ => ?_
  rcases given with ⟨d, hd, read⟩ | ⟨missing, absent⟩
  · exact .inl ⟨d, (same _ known).mp hd, read⟩
  · refine .inr ⟨fun met => missing ?_, absent⟩
    obtain ⟨e, he, name⟩ := List.mem_map.mp met
    exact name ▸ List.mem_map_of_mem ((same e (name ▸ known)).mpr he)

/-! ## Items in order -/

theorem length_names (l : Members σ) : (names l).length = l.size :=
  l.length_collect _

theorem zip_append_drop {α β : Type} (as bs : List α) (xs : List β) :
    (as ++ bs).zip xs = as.zip xs ++ bs.zip (xs.drop as.length) := by
  induction as generalizing xs with
  | nil => rfl
  | cons a as ih =>
    cases xs with
    | nil => simp
    | cons x xs => simp [ih]

section Zip

variable {β : Type} {as bs : List String} {xs : List β} {e : String × β}

/-- The pairs of one part are those of no key of the other. -/
theorem mem_zip_left (apart : ∀ a ∈ as, ∀ b ∈ bs, a ≠ b) (own : e.1 ∈ as) :
    e ∈ as.zip xs ↔ e ∈ (as ++ bs).zip xs := by
  rw [zip_append_drop, List.mem_append]
  refine ⟨.inl, fun h => h.resolve_right fun there => ?_⟩
  exact apart _ own _ (List.of_mem_zip there).1 rfl

theorem mem_zip_right (apart : ∀ a ∈ as, ∀ b ∈ bs, a ≠ b) (own : e.1 ∈ bs) :
    e ∈ bs.zip (xs.drop as.length) ↔ e ∈ (as ++ bs).zip xs := by
  rw [zip_append_drop, List.mem_append]
  refine ⟨.inr, fun h => h.resolve_left fun there => ?_⟩
  exact apart _ (List.of_mem_zip there).1 _ own rfl

end Zip

/-- The items of a whole list are the values of the fields in order, and the last fields may be left
out. -/
theorem rowOfItems_eq_ok {l : Members σ} (distinct : (names l).Nodup) {expected : String}
    {index : Nat} {items left : List Doc} {x : σ} :
    rowOfItems source expected .closed index l items = .ok (x, left) ↔
      left = items.drop l.size ∧
        l.AllOf (fun m y => m.Given source ((names l).zip items) y) x := by
  induction l generalizing index items left with
  | field m =>
    cases items with
    | nil =>
      show rowOfItems source expected .closed index (.field m) [] = _ ↔
        left = [] ∧ m.Given source [] x
      rw [Member.given_nil]
      cases absent : m.absent <;>
        simp [rowOfItems, Ending.isClosed, absent, and_comm, eq_comm]
    | cons item items =>
      show (m.form.read source item >>= fun x => .ok (x, items)) = .ok (x, left) ↔
        left = items ∧ m.Given source [(m.name, item)] x
      rw [Member.given_singleton, bind_eq_ok]
      constructor
      · rintro ⟨y, read, made⟩
        cases made
        exact ⟨rfl, read⟩
      · rintro ⟨rfl, read⟩
        exact ⟨x, read, rfl⟩
  | both first second ih₁ ih₂ =>
    obtain ⟨x, y⟩ := x
    obtain ⟨distinct₁, distinct₂, apart⟩ := List.nodup_append.mp distinct
    have own₁ (e : String × Doc) (he : e.1 ∈ names first) :
        e ∈ (names first).zip items ↔ e ∈ (names (.both first second)).zip items :=
      mem_zip_left apart he
    have own₂ (e : String × Doc) (he : e.1 ∈ names second) :
        e ∈ (names second).zip (items.drop first.size) ↔
          e ∈ (names (.both first second)).zip items :=
      length_names first ▸ mem_zip_right apart he
    simp only [rowOfItems, bind_eq_ok, Prod.exists, ih₁ distinct₁, ih₂ distinct₂, Layout.AllOf,
      Layout.size, Except.ok.injEq, Prod.mk.injEq]
    constructor
    · rintro ⟨x', _, ⟨rfl, h₁⟩, y', _, ⟨rfl, h₂⟩, ⟨rfl, rfl⟩, rfl⟩
      exact ⟨by rw [List.drop_drop], given_congr own₁ h₁, given_congr own₂ h₂⟩
    · rintro ⟨rfl, h₁, h₂⟩
      refine ⟨x, _, ⟨rfl, given_congr (fun e he => (own₁ e he).symm) h₁⟩, y, _,
        ⟨rfl, given_congr (fun e he => (own₂ e he).symm) h₂⟩, ⟨rfl, rfl⟩, ?_⟩
      rw [List.drop_drop]

end Members

namespace RecordForm

open Members

variable {σ : Type} {r : RecordForm σ} {source : Source} {es : List (String × Doc)} {x : σ}

/-- A record may have members with these keys. -/
structure Admits (r : RecordForm σ) (es : List (String × Doc)) : Prop where
  once : ((es.map Prod.fst).filter fun key => key ∈ names r.members).Nodup
  /-- Every other key may be skipped, and its value has no syntax error. -/
  others : ∀ e ∈ es, e.1 ∉ names r.members → r.strict = false ∧ e.2.isComplete = true

/-- A document gives members: by name, or as a list of their values in order. -/
inductive Gives (r : RecordForm σ) : Doc → List (String × Doc) → Prop
  | byName (es : List (String × Doc)) : Gives r (.record (named es) .closed) es
  | inOrder (items : List Doc) (fits : items.length ≤ r.members.size) :
    Gives r (.list items .closed) ((names r.members).zip items)

/-! ## Members by name -/

theorem admits_nil (r : RecordForm σ) : r.Admits [] where
  once := List.nodup_nil
  others _ he := absurd he List.not_mem_nil

/-- A strict record may have its own keys only, each once. -/
theorem admits_strict_iff (strict : r.strict = true) : r.Admits es ↔
    (es.map Prod.fst).Nodup ∧ ∀ e ∈ es, e.1 ∈ names r.members := by
  have all (known : ∀ e ∈ es, e.1 ∈ names r.members) :
      (es.map Prod.fst).filter (fun key => key ∈ names r.members) = es.map Prod.fst := by
    rw [List.filter_eq_self]
    intro key hk
    obtain ⟨e, he, rfl⟩ := List.mem_map.mp hk
    exact decide_eq_true (known e he)
  constructor
  · rintro ⟨once, others⟩
    have known : ∀ e ∈ es, e.1 ∈ names r.members := by
      intro e he
      refine Classical.byContradiction fun other => ?_
      have lenient := (others e he other).1
      rw [strict] at lenient
      cases lenient
    exact ⟨all known ▸ once, known⟩
  · rintro ⟨once, known⟩
    exact ⟨(all known).symm ▸ once, fun e he other => absurd (known e he) other⟩

theorem Admits.concat_field {e : String × Doc} (h : r.Admits es) (known : e.1 ∈ names r.members)
    (new : e.1 ∉ es.map Prod.fst) : r.Admits (es ++ [e]) where
  once := by
    rw [List.map_append, List.filter_append, List.nodup_append]
    refine ⟨h.once, (List.pairwise_singleton _ e.1).sublist List.filter_sublist, ?_⟩
    rintro key met _ again rfl
    obtain rfl := List.mem_singleton.mp (List.mem_filter.mp again).1
    exact new (List.mem_filter.mp met).1
  others e' he' other := by
    rcases List.mem_append.mp he' with he' | he'
    · exact h.others e' he' other
    · obtain rfl := List.mem_singleton.mp he'
      exact absurd known other

theorem Admits.concat_other {e : String × Doc} (h : r.Admits es) (other : e.1 ∉ names r.members)
    (skipped : r.strict = false ∧ e.2.isComplete = true) : r.Admits (es ++ [e]) where
  once := by
    have none : ([e].map Prod.fst).filter (fun key => key ∈ names r.members) = [] := by
      simpa using other
    rw [List.map_append, List.filter_append, none, List.append_nil]
    exact h.once
  others e' he' other' := by
    rcases List.mem_append.mp he' with he' | he'
    · exact h.others e' he' other'
    · obtain rfl := List.mem_singleton.mp he'
      exact skipped

/-- A member is taken only if its key is whole, and is that of a new field or may be skipped. -/
theorem admits_of_readMember {slots slots' : Slots r.members} {member : Option String × Doc}
    (distinct : (names r.members).Nodup) (admits : r.Admits es)
    (filled : FilledFrom source es r.members slots)
    (taken : r.readMember source slots member = .ok slots') :
    ∃ e : String × Doc, member = (some e.1, e.2) ∧ r.Admits (es ++ [e]) ∧
      FilledFrom source (es ++ [e]) r.members slots' := by
  obtain ⟨_ | key, d⟩ := member
  · cases taken
  refine ⟨(key, d), rfl, ?_⟩
  rw [readMember] at taken
  cases found : Members.fill source key d r.members slots with
  | some result =>
    rw [found] at taken
    obtain rfl : result = .ok slots' := taken
    obtain ⟨new, filled⟩ := filled.fill distinct found
    have known : key ∈ names r.members := by
      refine Classical.byContradiction fun other => ?_
      rw [fill_of_not_mem other] at found
      cases found
    exact ⟨admits.concat_field known new, filled⟩
  | none =>
    have other : key ∉ names r.members := not_mem_of_fill found
    rw [found] at taken
    -- A strict record refuses the key, and a value with a syntax error is no value.
    cases strict : r.strict with
    | true => simp [strict] at taken
    | false =>
      cases complete : d.isComplete with
      | false => simp [strict, complete] at taken
      | true =>
        simp only [strict, complete, if_true, Bool.false_eq_true, if_false,
          Except.ok.injEq] at taken
        subst taken
        exact ⟨admits.concat_other other ⟨strict, complete⟩, filled.other other⟩

/-- What has been read at the end of the members is what stands in them. -/
theorem admits_of_foldlM {slots slots' : Slots r.members} {members : List (Option String × Doc)}
    (distinct : (names r.members).Nodup) (admits : r.Admits es)
    (filled : FilledFrom source es r.members slots)
    (taken : members.foldlM (r.readMember source) slots = .ok slots') :
    ∃ es', members = named es' ∧ r.Admits (es ++ es') ∧
      FilledFrom source (es ++ es') r.members slots' := by
  induction members generalizing es slots with
  | nil =>
    cases taken
    exact ⟨[], rfl, by rwa [List.append_nil], by rwa [List.append_nil]⟩
  | cons member members ih =>
    rw [List.foldlM_cons] at taken
    obtain ⟨between, first, rest⟩ := bind_eq_ok.mp taken
    obtain ⟨e, rfl, admits, filled⟩ := admits_of_readMember distinct admits filled first
    obtain ⟨es', rfl, admits, filled⟩ := ih admits filled rest
    rw [List.append_assoc] at admits filled
    exact ⟨e :: es', rfl, admits, filled⟩

/-- Members whose keys may be skipped change nothing. -/
theorem foldlM_skip (others : ∀ e ∈ es, e.1 ∉ names r.members →
      r.strict = false ∧ e.2.isComplete = true) (slots : Slots r.members) :
    (named es).foldlM (r.readMember source) slots =
      (named (es.filter fun e => e.1 ∈ names r.members)).foldlM (r.readMember source) slots := by
  induction es generalizing slots with
  | nil => rfl
  | cons e es ih =>
    have rest := ih fun e' he' => others e' (List.mem_cons_of_mem _ he')
    by_cases known : e.1 ∈ names r.members
    · rw [List.filter_cons_of_pos (by simpa using known), named, named, List.map_cons, List.map_cons,
        List.foldlM_cons, List.foldlM_cons]
      exact congrArg _ (funext rest)
    · obtain ⟨lenient, complete⟩ := others e List.mem_cons_self known
      have skipped : r.readMember source slots (some e.1, e.2) = .ok slots := by
        simp [readMember, fill_of_not_mem known, lenient, complete]
      rw [List.filter_cons_of_neg (by simpa using known), named, List.map_cons, List.foldlM_cons,
        skipped, bind_ok]
      exact rest slots

theorem once_filter (admits : r.Admits es) :
    ((es.filter fun e => e.1 ∈ names r.members).map Prod.fst).Nodup := by
  have keys : (es.filter fun e => e.1 ∈ names r.members).map Prod.fst =
      (es.map Prod.fst).filter fun key => key ∈ names r.members := by
    rw [List.filter_map]
    rfl
  rw [keys]
  exact admits.once

theorem given_filter (given : r.members.AllOf (fun m y => m.Given source es y) x) :
    r.members.AllOf (fun m y => m.Given source (es.filter fun e => e.1 ∈ names r.members) y) x :=
  given_congr (fun e he => by simp [he]) given

/-- Whatever stands under the key of a field is read as its value. -/
theorem reads_of_given (admits : r.Admits es)
    (given : r.members.AllOf (fun m y => m.Given source es y) x) :
    r.members.AllOf (fun m y => ∀ d, (m.name, d) ∈ es → m.form.read source d = .ok y) x := by
  have known := (r.members.all_mem_collect fun m => m.name).allOf x
  refine (known.and (given_filter given)).imp fun m y ⟨known, h⟩ d hd => ?_
  exact ((Member.given_iff (once_filter admits)).mp h).1 d (List.mem_filter.mpr ⟨hd, by simpa⟩)

/-- Reading a record by name succeeds exactly if it is closed, may have its keys, and every field
has its value. -/
theorem readMembers_eq_ok {members : List (Option String × Doc)} {ending : Ending}
    (distinct : (names r.members).Nodup) : r.readMembers source members ending = .ok x ↔
      ending = .closed ∧ ∃ es, members = named es ∧ r.Admits es ∧
        r.members.AllOf (fun m y => m.Given source es y) x := by
  constructor
  · intro read
    obtain ⟨slots, taken, made⟩ := bind_eq_ok.mp read
    obtain ⟨es, rfl, admits, filled⟩ :=
      admits_of_foldlM distinct r.admits_nil (filledFrom_noSlots _) taken
    cases ending with
    | cut => cases made
    | closed => exact ⟨rfl, es, rfl, admits, filled.given made⟩
  · rintro ⟨rfl, es, rfl, admits, given⟩
    have once := once_filter admits
    have own := given_filter given
    rw [readMembers, foldlM_skip admits.others]
    refine readMembers_ok distinct (fun e he => ⟨by simpa using (List.mem_filter.mp he).2, ?_⟩) once
      (own.imp fun m y h => ((Member.given_iff once).mp h).2)
    refine own.imp fun m y h (same : m.name = e.1) => ((Member.given_iff once).mp h).1 e.2 ?_
    rw [same]
    exact he

/-! ## Reading a record -/

theorem keys_zip_sublist {α β : Type} (as : List α) (xs : List β) :
    ((as.zip xs).map Prod.fst).Sublist as := by
  induction as generalizing xs with
  | nil => exact .slnil
  | cons a as ih =>
    cases xs with
    | nil => exact List.nil_sublist _
    | cons x xs => exact (ih xs).cons_cons a

theorem admits_zip (distinct : (names r.members).Nodup) (items : List Doc) :
    r.Admits ((names r.members).zip items) where
  once := (distinct.sublist (keys_zip_sublist _ _)).sublist List.filter_sublist
  others _ he other := absurd (List.of_mem_zip he).1 other

theorem readItems_eq_ok {items : List Doc} {ending : Ending} (distinct : (names r.members).Nodup) :
    r.readItems source items ending = .ok x ↔ ending = .closed ∧ items.length ≤ r.members.size ∧
      r.members.AllOf (fun m y => m.Given source ((names r.members).zip items) y) x := by
  constructor
  · intro read
    obtain ⟨⟨y, left⟩, rows, read⟩ := bind_eq_ok.mp read
    cases ending with
    | cut => cases left <;> cases source <;> cases read
    | closed =>
      obtain ⟨rfl, given⟩ := (rowOfItems_eq_ok distinct).mp rows
      cases rest : items.drop r.members.size with
      | nil =>
        rw [rest] at read
        cases read
        exact ⟨rfl, List.drop_eq_nil_iff.mp rest, given⟩
      | cons item more =>
        rw [rest] at read
        cases source <;> cases read
  · rintro ⟨rfl, fits, given⟩
    rw [readItems, (rowOfItems_eq_ok distinct).mpr ⟨rfl, given⟩, bind_ok,
      List.drop_eq_nil_of_le fits]

/-- A row is read from a document exactly if the document gives members that the record may have
and in which every field has its value. -/
theorem read_eq_ok {d : Doc} (distinct : (names r.members).Nodup) :
    r.read source d = .ok x ↔ ∃ es, r.Gives d es ∧ r.Admits es ∧
      r.members.AllOf (fun m y => m.Given source es y) x := by
  have misfit (read : Except.error (d.misfit ("struct " ++ r.name)) = .ok x) : False := by
    cases read
  constructor
  · intro read
    cases d with
    | record members ending =>
      obtain ⟨rfl, es, rfl, admits, given⟩ := (readMembers_eq_ok distinct).mp read
      exact ⟨es, .byName es, admits, given⟩
    | list items ending =>
      obtain ⟨rfl, fits, given⟩ := (readItems_eq_ok distinct).mp read
      exact ⟨_, .inOrder items fits, admits_zip distinct items, given⟩
    | _ => exact (misfit read).elim
  · rintro ⟨es, gives, admits, given⟩
    cases gives with
    | byName => exact (readMembers_eq_ok distinct).mpr ⟨rfl, es, rfl, admits, given⟩
    | inOrder items fits => exact (readItems_eq_ok distinct).mpr ⟨rfl, fits, given⟩

end RecordForm

end LedgerCodec.Json
