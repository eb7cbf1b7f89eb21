import LedgerCodec.Json.Doc
import LedgerCodec.Proofs.Json.Scanning
/-!
# Written values are parsed back

`Json.doc` is the document that a written value makes. Every text that spells the
value's tokens is parsed to it: `parse_of_spells`. Among these are the text
without blanks and the one with every member on a line of its own, if numbers are
below 2^64: `spells_compact` and `spells_pretty`.
-/

namespace LedgerCodec.Json

/-! ## Documents -/

mutual

/-- The document that a value makes. -/
def doc : Json → Doc
  | null => .null
  | bool b => .bool b
  | number n => .number (.integer n)
  | text s => .text (some s)
  | list items => .list (docItems items) .closed
  | record members => .record (docMembers members) .closed
termination_by structural v => v

/-- The documents of list items. -/
def docItems : List Json → List Doc
  | [] => []
  | item :: items => item.doc :: docItems items
termination_by structural items => items

/-- The members of a record. -/
def docMembers : List (String × Json) → List (Option String × Doc)
  | [] => []
  | member :: members => docMember member :: docMembers members
termination_by structural members => members

/-- One member of a record. -/
def docMember : String × Json → Option String × Doc
  | (key, v) => (some key, v.doc)
termination_by structural member => member

end

theorem docItems_eq (items : List Json) : docItems items = items.map doc := by
  induction items with
  | nil => rfl
  | cons item items ih => rw [docItems, List.map_cons, ih]

theorem docMembers_eq (members : List (String × Json)) :
    docMembers members = members.map fun m => (some m.1, m.2.doc) := by
  induction members with
  | nil => rfl
  | cons member members ih =>
    obtain ⟨key, v⟩ := member
    rw [docMembers, docMember, List.map_cons, ih]

/-! ## Tokens of values -/

mutual

theorem emit_append (v : Json) (written : List Token) :
    v.emit written = v.emit [] ++ written := by
  cases v with
  | list items => rw [emit, emitItems_append, emit, emitItems_append false items [.openList]]; simp
  | record members =>
    rw [emit, emitMembers_append, emit, emitMembers_append false members [.openRecord]]; simp
  | _ => rfl

theorem emitItems_append (comma : Bool) (items : List Json) (written : List Token) :
    emitItems comma items written = emitItems comma items [] ++ written := by
  cases items with
  | nil => rfl
  | cons item items =>
    rw [emitItems, emitItems_append, emit_append item, emitItems, emitItems_append true items
      (item.emit _), emit_append item (if comma then _ else _)]
    cases comma <;> simp

theorem emitMembers_append (comma : Bool) (members : List (String × Json)) (written : List Token) :
    emitMembers comma members written = emitMembers comma members [] ++ written := by
  cases members with
  | nil => rfl
  | cons member members =>
    rw [emitMembers, emitMembers_append, emitMember_append member, emitMembers,
      emitMembers_append true members (emitMember member _),
      emitMember_append member (if comma then _ else _)]
    cases comma <;> simp

theorem emitMember_append (member : String × Json) (written : List Token) :
    emitMember member written = emitMember member [] ++ written := by
  cases member with
  | mk key v =>
    rw [emitMember, emit_append v, emitMember, emit_append v (_ :: _)]
    simp

end

/-- The tokens of a member. -/
def memberTokens (member : String × Json) : List Token :=
  .text (some member.1) :: .colon :: member.2.tokens

/-- The tokens of items or members with commas between them. -/
def separated {α : Type} (tokens : α → List Token) : List α → List Token
  | [] => []
  | x :: xs => tokens x ++ xs.flatMap fun y => .comma :: tokens y

theorem tokens_list (items : List Json) :
    (list items).tokens = .openList :: separated tokens items ++ [.closeList] := by
  have more (items : List Json) : (emitItems true items []).reverse =
      items.flatMap fun v => .comma :: v.tokens := by
    induction items with
    | nil => rfl
    | cons item items ih =>
      rw [emitItems, emitItems_append, List.reverse_append, ih, if_pos rfl, emit_append]
      simp [tokens]
  rw [tokens, emit, emitItems_append]
  cases items with
  | nil => rfl
  | cons item items =>
    rw [emitItems, emitItems_append]
    simp [more, separated, tokens]

theorem tokens_record (members : List (String × Json)) :
    (record members).tokens = .openRecord :: separated memberTokens members ++ [.closeRecord] := by
  have one (member : String × Json) : (emitMember member []).reverse = memberTokens member := by
    cases member with
    | mk key v =>
      rw [emitMember, emit_append]
      simp [memberTokens, tokens]
  have more (members : List (String × Json)) : (emitMembers true members []).reverse =
      members.flatMap fun m => .comma :: memberTokens m := by
    induction members with
    | nil => rfl
    | cons member members ih =>
      rw [emitMembers, emitMembers_append, List.reverse_append, ih, if_pos rfl, emitMember_append]
      simp [one]
  rw [tokens, emit, emitMembers_append]
  cases members with
  | nil => rfl
  | cons member members =>
    rw [emitMembers, emitMembers_append]
    simp [more, separated, one]

/-! ## From tokens to documents -/

namespace Doc

/-- Puts a value into the frames and goes on from there. -/
def resume (doc : Doc) (frames : List Frame) (rest : List Token) : Doc × List Token :=
  match put doc frames with
  | .more frames place => build frames place rest
  | .done doc => (doc, rest)
  | .stuck => (cut frames, rest)

/-- A value is due in the innermost frame. -/
def Open : List Frame → Prop
  | .record _ :: _ => False
  | _ => True

theorem open_nil : Open [] :=
  trivial

theorem open_list (items : List Doc) (frames : List Frame) : Open (.list items :: frames) :=
  trivial

theorem open_member (members : List (Option String × Doc)) (key : Option String)
    (frames : List Frame) : Open (.member members key :: frames) :=
  trivial

theorem build_put {doc : Doc} {frames inner : List Frame} {place : Place} {t : Token}
    {rest : List Token} (room : Open frames) (step : advance inner place t = put doc frames) :
    build inner place (t :: rest) = resume doc frames rest := by
  rw [build, resume, step]
  -- Only a record that has not got a key cannot take a value.
  cases frames with
  | nil => rfl
  | cons frame outer =>
    cases frame with
    | record members => exact room.elim
    | _ => rfl

theorem advance_value {place : Place} (due : place = .value ∨ place = .firstItem)
    {t : Token} (start : t ≠ .closeList) (frames : List Frame) :
    advance frames place t = startValue frames t := by
  rcases due with rfl | rfl
  · rfl
  · cases t <;> first | rfl | exact absurd rfl start

end Doc

section Build

open Doc

mutual

/-- The tokens of a value, where one is due, put its document there. -/
theorem build_value (v : Json) {frames : List Frame} (room : Open frames) {place : Place}
    (due : place = .value ∨ place = .firstItem) (rest : List Token) :
    build frames place (v.tokens ++ rest) = resume v.doc frames rest := by
  cases v with
  | list items =>
    rw [tokens_list, List.append_assoc, List.cons_append, build,
      advance_value due Token.noConfusion]
    exact build_items items room rest
  | record members =>
    rw [tokens_record, List.append_assoc, List.cons_append, build,
      advance_value due Token.noConfusion]
    exact build_members members room rest
  | _ => exact build_put room (advance_value due Token.noConfusion frames)

theorem build_items (items : List Json) {frames : List Frame} (room : Open frames)
    (rest : List Token) :
    build (.list [] :: frames) .firstItem (separated tokens items ++ (.closeList :: rest)) =
      resume (.list (docItems items) .closed) frames rest := by
  cases items with
  | nil => exact build_put room rfl
  | cons item items =>
    rw [separated, List.append_assoc, build_value item (open_list _ _) (.inr rfl)]
    exact build_moreItems items [item.doc] room rest

theorem build_moreItems (items : List Json) (read : List Doc) {frames : List Frame}
    (room : Open frames) (rest : List Token) :
    build (.list read :: frames) .afterItem
        ((items.flatMap fun v => .comma :: v.tokens) ++ (.closeList :: rest)) =
      resume (.list (read.reverse ++ docItems items) .closed) frames rest := by
  cases items with
  | nil =>
    rw [docItems, List.append_nil]
    exact build_put room rfl
  | cons item items =>
    rw [List.flatMap_cons, List.append_assoc, List.cons_append, build]
    simp only [advance]
    rw [build_value item (open_list _ _) (.inl rfl)]
    have := build_moreItems items (item.doc :: read) room rest
    rw [List.reverse_cons, List.append_assoc] at this
    exact this

theorem build_members (members : List (String × Json)) {frames : List Frame} (room : Open frames)
    (rest : List Token) :
    build (.record [] :: frames) .firstKey
        (separated memberTokens members ++ (.closeRecord :: rest)) =
      resume (.record (docMembers members) .closed) frames rest := by
  cases members with
  | nil => exact build_put room rfl
  | cons member members =>
    rw [separated, List.append_assoc, build_member member (.inl rfl)]
    exact build_moreMembers members [docMember member] room rest

theorem build_moreMembers (members : List (String × Json)) (read : List (Option String × Doc))
    {frames : List Frame} (room : Open frames) (rest : List Token) :
    build (.record read :: frames) .afterMember
        ((members.flatMap fun m => .comma :: memberTokens m) ++ (.closeRecord :: rest)) =
      resume (.record (read.reverse ++ docMembers members) .closed) frames rest := by
  cases members with
  | nil =>
    rw [docMembers, List.append_nil]
    exact build_put room rfl
  | cons member members =>
    rw [List.flatMap_cons, List.append_assoc, List.cons_append, build]
    simp only [advance]
    rw [build_member member (.inr rfl)]
    have := build_moreMembers members (docMember member :: read) room rest
    rw [List.reverse_cons, List.append_assoc] at this
    exact this

theorem build_member (member : String × Json) {read : List (Option String × Doc)}
    {frames : List Frame} {place : Place} (due : place = .firstKey ∨ place = .key)
    {rest : List Token} :
    build (.record read :: frames) place (memberTokens member ++ rest) =
      build (.record (docMember member :: read) :: frames) .afterMember rest := by
  cases member with
  | mk key v =>
    have key : build (.record read :: frames) place (memberTokens (key, v) ++ rest) =
        build (.member read (some key) :: frames) .value (v.tokens ++ rest) := by
      rcases due with rfl | rfl <;> rfl
    rw [key, build_value v (open_member _ _ _) (.inl rfl)]
    rfl

end

end Build

/-- A text that spells the tokens of a value is parsed to the value's document. -/
theorem parse_of_spells {v : Json} {text : String} (h : Spells v.tokens text.toList) :
    Doc.parse text = (v.doc, true) := by
  have whole : Doc.build [] .value (v.tokens ++ []) = (v.doc, []) :=
    build_value v Doc.open_nil (.inl rfl) []
  rw [List.append_nil] at whole
  rw [Doc.parse, scan_of_spells h]
  simp only [whole]
  rfl

/-! ## Tokens that do not run together -/

/-- Tokens that may stand after a number. -/
def Token.endsNumber : Token → Bool
  | .comma | .closeList | .closeRecord => true
  | _ => false

theorem endsNumber_of_isBlank {c : Char} (blank : isBlank c = true) (rest : List Char) :
    EndsNumber (c :: rest) := by
  rintro _ ⟨rfl⟩
  simp only [isBlank, Bool.or_eq_true, decide_eq_true_eq] at blank
  rcases blank with ((rfl | rfl) | rfl) | rfl <;> decide

theorem endsNumber_append {blanks rest : List Char} (blank : ∀ c ∈ blanks, isBlank c = true)
    (ends : EndsNumber rest) : EndsNumber (blanks ++ rest) := by
  cases blanks with
  | nil => exact ends
  | cons c blanks => exact endsNumber_of_isBlank (blank c List.mem_cons_self) _

theorem Token.endsNumber_chars {t : Token} (ends : t.endsNumber = true) (rest : List Char) :
    EndsNumber (t.chars ++ rest) := by
  intro c hc
  cases t with
  | comma =>
    obtain rfl : ',' = c := Option.some.inj hc
    decide
  | closeList =>
    obtain rfl : ']' = c := Option.some.inj hc
    decide
  | closeRecord =>
    obtain rfl : '}' = c := Option.some.inj hc
    decide
  | _ => cases ends

/-- The tokens go on with one that may stand after a number, or end. -/
def Stops (ts : List Token) : Prop :=
  ∀ t ∈ ts.head?, t.endsNumber = true

theorem stops_cons {t : Token} (ends : t.endsNumber = true) (ts : List Token) :
    Stops (t :: ts) := by
  intro u hu
  obtain rfl : t = u := Option.some.inj hu
  exact ends

/-- No number runs into the next token, even without blanks between them. -/
inductive Joinable : List Token → Prop
  | nil : Joinable []
  | cons {t : Token} {ts : List Token} (printed : t.Printed)
      (apart : t.isNumber = true → Stops ts) (more : Joinable ts) : Joinable (t :: ts)

namespace Joinable

variable {t : Token} {ts rest : List Token}

/-- Any token may stand before one that may stand after a number. -/
theorem before (printed : t.Printed) (ends : Stops rest) (more : Joinable rest) :
    Joinable (t :: rest) :=
  .cons printed (fun _ => ends) more

/-- Any token that is no number may stand before others. -/
theorem mark (printed : t.Printed) (other : t.isNumber = false) (more : Joinable rest) :
    Joinable (t :: rest) :=
  .cons printed (fun number => absurd number (Bool.eq_false_iff.mp other)) more

theorem append_separated {α : Type} {tokens : α → List Token} {xs : List α}
    (one : ∀ x ∈ xs, ∀ rest, Stops rest → Joinable rest → Joinable (tokens x ++ rest))
    {rest : List Token} (ends : Stops rest) (joinable : Joinable rest) :
    Joinable (separated tokens xs ++ rest) := by
  -- Each comma ends the item before it, whatever that ends with.
  have more (xs : List α)
      (one : ∀ x ∈ xs, ∀ rest, Stops rest → Joinable rest → Joinable (tokens x ++ rest)) :
      Stops ((xs.flatMap fun x => .comma :: tokens x) ++ rest) ∧
        Joinable ((xs.flatMap fun x => .comma :: tokens x) ++ rest) := by
    induction xs with
    | nil => exact ⟨ends, joinable⟩
    | cons x xs ih =>
      obtain ⟨hends, hjoinable⟩ := ih fun y hy => one y (List.mem_cons_of_mem _ hy)
      have first := one x List.mem_cons_self _ hends hjoinable
      rw [List.flatMap_cons, List.append_assoc]
      exact ⟨stops_cons rfl _, .mark trivial rfl first⟩
  cases xs with
  | nil => exact joinable
  | cons x xs =>
    obtain ⟨hends, hjoinable⟩ := more xs fun y hy => one y (List.mem_cons_of_mem _ hy)
    rw [separated, List.append_assoc]
    exact one x List.mem_cons_self _ hends hjoinable

end Joinable

/-- Values that can be written and read: numbers are below 2^64. -/
inductive Printable : Json → Prop
  | null : Printable null
  | bool (b : Bool) : Printable (bool b)
  | number {n : Nat} (small : n < UInt64.size) : Printable (number n)
  | text (s : String) : Printable (text s)
  | list {items : List Json} (printable : ∀ v ∈ items, Printable v) : Printable (list items)
  | record {members : List (String × Json)} (printable : ∀ m ∈ members, Printable m.2) :
      Printable (record members)

theorem Printable.joinable_append {v : Json} (h : Printable v) {rest : List Token}
    (ends : Stops rest) (more : Joinable rest) : Joinable (v.tokens ++ rest) := by
  induction h generalizing rest with
  | null => exact .before trivial ends more
  | bool b => exact .before trivial ends more
  | number small => exact .before ⟨by omega, by omega⟩ ends more
  | text s => exact .before rfl ends more
  | list _ ih =>
    rw [tokens_list, List.append_assoc, List.cons_append]
    have close : Joinable ([.closeList] ++ rest) := .mark trivial rfl more
    refine .mark trivial rfl (Joinable.append_separated (fun v hv _ => ih v hv) ?_ close)
    exact stops_cons rfl _
  | record _ ih =>
    rw [tokens_record, List.append_assoc, List.cons_append]
    have close : Joinable ([.closeRecord] ++ rest) := .mark trivial rfl more
    refine .mark trivial rfl (Joinable.append_separated (fun m hm _ ends more => ?_) ?_ close)
    · exact .mark rfl rfl (.mark trivial rfl (ih m hm ends more))
    · exact stops_cons rfl _

theorem Printable.joinable {v : Json} (h : Printable v) : Joinable v.tokens := by
  have none : Stops [] := by
    intro t ht
    cases ht
  have := h.joinable_append none .nil
  rwa [List.append_nil] at this

/-! ## Setting out tokens -/

theorem Spells.endsNumber {ts : List Token} {cs : List Char} (h : Spells ts cs)
    (ends : Stops ts) : EndsNumber cs := by
  cases h with
  | nil blank =>
    have none : EndsNumber [] := by
      intro c hc
      cases hc
    have := endsNumber_append blank none
    rwa [List.append_nil] at this
  | @cons t ts blanks rest blank _ _ _ =>
    exact endsNumber_append blank (Token.endsNumber_chars (ends t rfl) rest)

theorem Spells.blanks {ts : List Token} {cs blanks : List Char} (h : Spells ts cs)
    (blank : ∀ c ∈ blanks, isBlank c = true) : Spells ts (blanks ++ cs) := by
  have both {more : List Char} (hmore : ∀ c ∈ more, isBlank c = true) :
      ∀ c ∈ blanks ++ more, isBlank c = true := by
    intro c hc
    exact (List.mem_append.mp hc).elim (blank c) (hmore c)
  cases h with
  | nil hmore => exact .nil (both hmore)
  | cons hmore printed ends more =>
    rw [← List.append_assoc]
    exact .cons (both hmore) printed ends more

theorem Joinable.spells_flatMap {ts : List Token} (h : Joinable ts) :
    Spells ts (ts.flatMap Token.chars) := by
  induction h with
  | nil => exact .nil (List.forall_mem_nil _)
  | cons printed apart _ ih =>
    have ends number := ih.endsNumber (apart number)
    exact .cons (List.forall_mem_nil _) printed ends ih

/-- The characters of tokens that are set out from a margin on. -/
def spread : Margin → List Token → List Char
  | _, [] => []
  | m, t :: ts => m.place t ++ spread (m.after t) ts

theorem setOut_eq (m : Margin) (written : List Char) (ts : List Token) :
    setOut m written ts = written.reverse ++ spread m ts := by
  induction ts generalizing m written with
  | nil => rw [setOut, spread, List.append_nil]
  | cons t ts ih => rw [setOut, ih, spread, List.reverseAux_eq, List.reverse_append]; simp

theorem isBlank_newLine (level : Nat) : ∀ c ∈ newLine level, isBlank c = true := by
  intro c hc
  rcases List.mem_cons.mp hc with rfl | hc
  · decide
  · rw [List.eq_of_mem_replicate hc]
    decide

/-- Only blanks are put around a token. -/
theorem Margin.place_eq (m : Margin) (t : Token) : ∃ before after,
    m.place t = before ++ (t.chars ++ after) ∧ (∀ c ∈ before, isBlank c = true) ∧
      ∀ c ∈ after, isBlank c = true := by
  -- Brackets and values may begin a line. Commas and colons are followed by blanks.
  have none := List.forall_mem_nil fun c => isBlank c = true
  have line (fresh : Bool) (level : Nat) :
      ∀ c ∈ if fresh then newLine level else [], isBlank c = true := by
    cases fresh
    · exact none
    · exact isBlank_newLine level
  have noLine (fresh : Bool) (level : Nat) :
      ∀ c ∈ if fresh then [] else newLine level, isBlank c = true := by
    cases fresh
    · exact isBlank_newLine level
    · exact none
  cases t with
  | comma => exact ⟨[], newLine m.level, rfl, none, isBlank_newLine _⟩
  | colon => exact ⟨[], [' '], rfl, none, List.forall_mem_singleton.mpr rfl⟩
  | closeList => exact ⟨_, [], rfl, noLine m.fresh (m.level - 1), none⟩
  | closeRecord => exact ⟨_, [], rfl, noLine m.fresh (m.level - 1), none⟩
  | _ => exact ⟨_, [], by rw [List.append_nil]; rfl, line m.fresh m.level, none⟩

theorem Joinable.spells_spread {ts : List Token} (h : Joinable ts) (m : Margin) :
    Spells ts (spread m ts) := by
  induction h generalizing m with
  | nil => exact .nil (List.forall_mem_nil _)
  | @cons t ts printed apart _ ih =>
    obtain ⟨before, after, placed, hbefore, hafter⟩ := m.place_eq t
    -- What comes after the token is put in front of the rest, and ends a number all the same.
    have rest := (ih (m.after t)).blanks hafter
    have ends number := rest.endsNumber (apart number)
    rw [spread, placed, List.append_assoc, List.append_assoc]
    exact .cons hbefore printed ends rest

/-- The text without blanks spells the value's tokens. -/
theorem spells_compact {v : Json} (h : Printable v) : Spells v.tokens v.compact.toList := by
  rw [compact, String.toList_ofList]
  exact h.joinable.spells_flatMap

/-- The text with every member on a line of its own spells the value's tokens. -/
theorem spells_pretty {v : Json} (h : Printable v) : Spells v.tokens v.pretty.toList := by
  rw [pretty, String.toList_ofList, setOut_eq]
  exact h.joinable.spells_spread _

end LedgerCodec.Json
