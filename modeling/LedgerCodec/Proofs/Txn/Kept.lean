import LedgerCodec.Proofs.Record.Kept
import LedgerCodec.Proofs.Txn.RoundTrip
/-!
# The zeros of canonical bytes

`Value.isZero` judges a value without the field that holds it: a blob of zero bytes
is zero, whether its field has a fixed length and would have left it out or not. In
canonical bytes the entries that it takes for zero are the notes and the programs of
zero bytes, and the logic signatures that have nothing else:
`CanonicalType.isZero_iff_keptZero`.
-/

namespace LedgerCodec

open Wire Kind

/-! ## Records that keep no zero -/

theorem Payment.unmistaken (p : Payment) : Fields.Unmistaken Record.fields (Record.row p) :=
  ⟨unmistaken_fixed _, unmistaken_uint64 _, unmistaken_fixed _⟩

theorem KeyRegistration.unmistaken (k : KeyRegistration) :
    Fields.Unmistaken Record.fields (Record.row k) :=
  ⟨unmistaken_fixed _, unmistaken_fixed _, unmistaken_uint64 _, unmistaken_uint64 _,
    unmistaken_uint64 _⟩

theorem AssetParams.unmistaken (a : AssetParams) :
    Fields.Unmistaken Record.fields (Record.row a) :=
  ⟨unmistaken_uint64 _, unmistaken_narrow _, unmistaken_bool _, unmistaken_text _,
    unmistaken_text _, unmistaken_text _, unmistaken_fixed _, unmistaken_fixed _,
    unmistaken_fixed _, unmistaken_fixed _, unmistaken_fixed _⟩

theorem AssetConfig.unmistaken (c : AssetConfig) :
    Fields.Unmistaken Record.fields (Record.row c) :=
  ⟨unmistaken_uint64 _, Record.unmistaken c.params.unmistaken⟩

theorem AssetTransfer.unmistaken (t : AssetTransfer) :
    Fields.Unmistaken Record.fields (Record.row t) :=
  ⟨unmistaken_uint64 _, unmistaken_uint64 _, unmistaken_fixed _, unmistaken_fixed _,
    unmistaken_fixed _⟩

theorem AssetFreeze.unmistaken (f : AssetFreeze) :
    Fields.Unmistaken Record.fields (Record.row f) :=
  ⟨unmistaken_fixed _, unmistaken_uint64 _, unmistaken_bool _⟩

theorem Payload.unmistaken (p : Payload) : (fieldsOf p.type).Unmistaken p.row := by
  cases p with
  | payment p => exact p.unmistaken
  | keyRegistration k => exact k.unmistaken
  | assetConfig c => exact c.unmistaken
  | assetTransfer t => exact t.unmistaken
  | assetFreeze f => exact f.unmistaken

theorem Cosigner.unmistaken (c : Cosigner) : Fields.Unmistaken Record.fields (Record.row c) :=
  ⟨unmistaken_fixed _, unmistaken_fixed _⟩

theorem Multisig.unmistaken (m : Multisig) : Fields.Unmistaken Record.fields (Record.row m) :=
  ⟨unmistaken_narrow _, unmistaken_narrow _,
    unmistaken_list fun c _ => Record.everyEntry c.unmistaken.judged⟩

theorem Group.unmistaken (g : Group) : Fields.Unmistaken Record.fields (Record.row g) :=
  unmistaken_list fun _ _ => .bin _

/-! ## Records that may keep one -/

theorem Header.judged (h : Header) : Layout.AllOf Field.Judged Record.fields (Record.row h) :=
  ⟨Field.judged _ (unmistaken_fixed _), Field.judged _ (unmistaken_uint64 _),
    Field.judged _ (unmistaken_uint64 _), Field.judged _ (unmistaken_uint64 _),
    Field.judged_blob KeptZero.note, Field.judged _ (unmistaken_text _),
    Field.judged _ (unmistaken_fixed _), Field.judged _ (unmistaken_fixed _),
    Field.judged _ (unmistaken_fixed _), Field.judged _ (unmistaken_fixed _)⟩

namespace LogicSig

/-- The fields beside the program. -/
def delegation : Fields (Signature × Multisig × List Bytes) :=
  .both (.one "sig" "sig" (.fixed _)) <|
  .both (.one "msig" "msig" .nested) <|
  .one "args" "arg" .blobs

theorem entriesOf_list (l : LogicSig) : (entriesOf l).list =
    (if l.logic.isEmpty then [] else [("l", .bin l.logic)]) ++
      delegation.entries (l.sig, l.msig, l.args) :=
  Record.entriesOf_list l

theorem unmistaken_delegation (l : LogicSig) : delegation.Unmistaken (l.sig, l.msig, l.args) :=
  ⟨unmistaken_fixed _, Record.unmistaken l.msig.unmistaken, unmistaken_list fun bs _ => .bin bs⟩

theorem judged (l : LogicSig) : Layout.AllOf Field.Judged Record.fields (Record.row l) :=
  ⟨Field.judged_blob KeptZero.logic, l.unmistaken_delegation.judged⟩

/-- What is kept of a logic signature is zero exactly if it has nothing but a program of zeros. -/
theorem judged_kept {l : LogicSig} (some : (entriesOf l).isEmpty = false) :
    Judged "lsig" (entriesOf l).toValue := by
  refine ⟨fun zero => ?_, KeptZero.isZero⟩
  have zeros := Entries.isZero_toValue.mp zero
  rw [entriesOf_list] at zeros
  -- Beside the program no zero is kept, so there is nothing beside it.
  have alone : delegation.entries (l.sig, l.msig, l.args) = [] := by
    rw [List.eq_nil_iff_forall_not_mem]
    intro e he
    have nonzero := l.unmistaken_delegation.nonzero e he
    rw [zeros e (List.mem_append_right _ he)] at nonzero
    cases nonzero
  have list := l.entriesOf_list
  rw [alone, List.append_nil] at list
  split at list
  · rw [Entries.isEmpty, list] at some
    cases some
  · rename_i program
    have kept : l.logic ≠ [] := by simpa using program
    have zero : l.logic.allZero = true := zeros ("l", .bin l.logic) (by simp [kept])
    rw [Entries.toValue, list]
    exact .lsig kept zero

end LogicSig

theorem TxnType.isZero_tag (u : TxnType) : (Value.str u.tag).isZero = false := by
  cases u <;> decide

namespace Transaction

theorem everyEntry (t : Transaction) : (entriesOf t).toValue.EveryEntry Judged := by
  apply Entries.everyEntry_toValue
  rw [entriesOf_list]
  intro e he
  rcases mem_entries.mp he with header | rfl | payload
  · exact Fields.judged_entries t.header.judged e header
  · exact ⟨judged_of_nonzero t.type.isZero_tag, .str _⟩
  · exact Fields.judged_entries t.payload.unmistaken.judged e payload

/-- The tag of the type is no zero, so no transaction is. -/
theorem unmistaken (t : Transaction) : (Kind.nested : Kind Transaction).Unmistaken t := by
  refine unmistaken_nested (fun _ => ⟨(Payload.typeKey, .str t.type.tag), ?_, ?_⟩) t.everyEntry
  · rw [entriesOf_list]
    exact mem_entries.mpr (.inr (.inl rfl))
  · exact t.type.isZero_tag

end Transaction

theorem Envelope.judged (e : Envelope) : Layout.AllOf Field.Judged Record.fields (Record.row e) :=
  ⟨Field.judged _ (unmistaken_fixed _), Field.judged _ (Record.unmistaken e.msig.unmistaken),
    fun kept => ⟨LogicSig.judged_kept kept, Record.everyEntry e.lsig.judged⟩,
    Field.judged _ e.txn.unmistaken, Field.judged _ (unmistaken_fixed _)⟩

/-! ## All types with canonical bytes -/

namespace CanonicalType

theorem everyEntry (t : CanonicalType) (x : t.Val) : (entriesOf x).toValue.EveryEntry Judged := by
  cases t with
  | header => exact Record.everyEntry (ρ := Header) (Header.judged x)
  | payment => exact Record.everyEntry (ρ := Payment) (Payment.unmistaken x).judged
  | keyRegistration =>
    exact Record.everyEntry (ρ := KeyRegistration) (KeyRegistration.unmistaken x).judged
  | assetParams => exact Record.everyEntry (ρ := AssetParams) (AssetParams.unmistaken x).judged
  | assetConfig => exact Record.everyEntry (ρ := AssetConfig) (AssetConfig.unmistaken x).judged
  | assetTransfer =>
    exact Record.everyEntry (ρ := AssetTransfer) (AssetTransfer.unmistaken x).judged
  | assetFreeze => exact Record.everyEntry (ρ := AssetFreeze) (AssetFreeze.unmistaken x).judged
  | transaction => exact Transaction.everyEntry x
  | cosigner => exact Record.everyEntry (ρ := Cosigner) (Cosigner.unmistaken x).judged
  | multisig => exact Record.everyEntry (ρ := Multisig) (Multisig.unmistaken x).judged
  | logicSig => exact Record.everyEntry (ρ := LogicSig) (LogicSig.judged x)
  | envelope => exact Record.everyEntry (ρ := Envelope) (Envelope.judged x)
  | group => exact Record.everyEntry (ρ := Group) (Group.unmistaken x).judged

/-- In the canonical bytes of a value, `isZero` is true of the value of an entry exactly if the
entry is one of the zeros that are kept. -/
theorem isZero_iff_keptZero (t : CanonicalType) (x : t.Val) (small : t.Small x) :
    ∃ v, parse (encode x) = .ok v ∧
      v.EveryEntry fun key w => w.isZero = true ↔ KeptZero key w :=
  ⟨_, parse_write (@fits 27 t x small), t.everyEntry x⟩

/-- A transaction with a note of zero bytes, signed by a program of zero bytes. The signature is
kept and is zero, the transaction is not, for it has a type. -/
theorem isZero_iff_keptZero_program :
    let t : Transaction := ⟨{ (default : Header) with note := [0, 0] }, .payment default⟩
    let e : Envelope := ⟨default, default, ⟨[0], default, default, []⟩, t, default⟩
    let lsig : Value := .map [("l", .bin [0])]
    let txn : Value := .map [("note", .bin [0, 0]), ("type", .str "pay")]
    envelope.Small e ∧ parse (encode e) = .ok (.map [("lsig", lsig), ("txn", txn)]) ∧
      lsig.isZero = true ∧ KeptZero "lsig" lsig ∧ ¬ KeptZero "txn" txn := by
  intro t e lsig txn
  have none : 0 < lengthBound := by decide
  have one : 1 < lengthBound := by decide
  have small : envelope.Small e :=
    { msig := none
      lsig := ⟨one, none, none, nofun⟩
      txn := ⟨⟨by decide, none⟩, trivial⟩ }
  have read : parse (encode e) = .ok (.map [("lsig", lsig), ("txn", txn)]) :=
    parse_write (@fits 27 envelope e small)
  obtain ⟨v, parsed, every⟩ := isZero_iff_keptZero .envelope e small
  obtain rfl : Value.map [("lsig", lsig), ("txn", txn)] = v :=
    Except.ok.inj (read.symm.trans parsed)
  cases every with
  | map here _ =>
    have lsigZero : lsig.isZero = true := by decide
    have txnZero : txn.isZero = false := by decide
    refine ⟨small, read, lsigZero, (here ("lsig", lsig) (by simp)).mp lsigZero, fun kept => ?_⟩
    have zero := (here ("txn", txn) (by simp)).mpr kept
    rw [txnZero] at zero
    cases zero

/-- So not every entry that is kept is nonzero: a note of one zero byte is zero. -/
theorem isZero_kept_note :
    ¬ ∀ (t : CanonicalType) (x : t.Val), t.Small x →
      ∃ v, parse (encode x) = .ok v ∧ v.EveryEntry fun _ w => w.isZero = false := by
  intro claimed
  let h : Header := { (default : Header) with note := [0] }
  have small : h.Small := ⟨by decide, by decide⟩
  have read : parse (encode h) = .ok (.map [("note", .bin [0])]) :=
    parse_write (@fits 27 header h small)
  obtain ⟨v, parsed, every⟩ := claimed .header h small
  obtain rfl : Value.map [("note", .bin [0])] = v := Except.ok.inj (read.symm.trans parsed)
  cases every with
  | map here _ => cases here ("note", .bin [0]) (List.mem_singleton_self _)

end CanonicalType

end LedgerCodec
