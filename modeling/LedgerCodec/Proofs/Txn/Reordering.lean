import LedgerCodec.Proofs.Record.Reordered
import LedgerCodec.Proofs.Txn.RoundTrip
/-!
# Decoding in any order

The order in which maps hold their entries makes no difference to what is
decoded, nor to what is wrong: `CanonicalType.decodeValue_reordered`. The fields
of every record are steady, those of nested records because these are. What
stands under the keys of other types is judged in the order of the keys, and by
what does not depend on the order inside.
-/

namespace LedgerCodec

open Wire Reader

/-! ## The fields of every record -/

theorem Header.steady_fields : (Record.fields (ρ := Header)).All fun f => f.kind.reader.Steady :=
  ⟨steady_fixed, steady_uint, steady_uint, steady_uint, steady_blob, steady_text, steady_fixed,
    steady_fixed, steady_fixed, steady_fixed⟩

theorem AssetParams.steady_nested : (nested : Reader AssetParams).Steady :=
  Record.steady_nested (@AssetParams.lawful_fields 0).distinct
    ⟨steady_uint, steady_narrow, steady_bool, steady_text, steady_text, steady_text, steady_fixed,
      steady_fixed, steady_fixed, steady_fixed, steady_fixed⟩

theorem Payload.steady_fieldsOf (t : TxnType) :
    (Payload.fieldsOf t).All fun f => f.kind.reader.Steady := by
  cases t with
  | payment => exact ⟨steady_fixed, steady_uint, steady_fixed⟩
  | keyRegistration => exact ⟨steady_fixed, steady_fixed, steady_uint, steady_uint, steady_uint⟩
  | assetConfig => exact ⟨steady_uint, AssetParams.steady_nested⟩
  | assetTransfer => exact ⟨steady_uint, steady_uint, steady_fixed, steady_fixed, steady_fixed⟩
  | assetFreeze => exact ⟨steady_fixed, steady_uint, steady_bool⟩

theorem Cosigner.steady_nested : (nested : Reader Cosigner).Steady :=
  Record.steady_nested (@Cosigner.lawful_fields 0).distinct ⟨steady_fixed, steady_fixed⟩

theorem Multisig.steady_nested : (nested : Reader Multisig).Steady :=
  Record.steady_nested (@Multisig.lawful_fields 0).distinct
    ⟨steady_narrow, steady_narrow, steady_list Cosigner.steady_nested⟩

theorem LogicSig.steady_nested : (nested : Reader LogicSig).Steady :=
  Record.steady_nested (@LogicSig.lawful_fields 0).distinct
    ⟨steady_blob, steady_fixed, Multisig.steady_nested, steady_list steady_blob⟩

/-! ## Transactions -/

namespace Transaction

theorem readBy_eq_of_steady {held held' : String → Option Value}
    (h : ∀ key, HeldAlike (held key) (held' key)) : readBy held = readBy held' := by
  have header := Fields.readBy_eq_of_steady Header.steady_fields h
  have tag : Reader.text.ofHeld Payload.typeKey _ = _ := steady_text.ofHeld_eq (h Payload.typeKey)
  have payload (t : TxnType) := Fields.readBy_eq_of_steady (Payload.steady_fieldsOf t) h
  simp only [readBy, header, tag, payload]

/-- Whether entries of other types are passed over, and which of them is refused, does not depend on
the order inside their values. -/
theorem checkForeign_eq_of_alike {t : TxnType} {es es' : List (String × Value)}
    (h : Alike es es') : checkForeign t es = checkForeign t es' := by
  induction h with
  | nil => rfl
  | @cons e e' es es' same _ ih =>
    obtain ⟨key, v⟩ := e
    obtain ⟨key', v'⟩ := e'
    obtain ⟨rfl, -, reordered⟩ := same
    dsimp only at reordered
    unfold checkForeign
    rw [reordered.isZero_eq, ih]

theorem steady_nested : (nested : Reader Transaction).Steady := by
  intro key v v' unrepeated h
  show (decodeValue key v : Except Error Transaction) = decodeValue key v'
  cases unrepeated with
  | map distinct inner =>
    obtain ⟨moved, es', rfl, alike, perm⟩ := h.of_map (.map distinct inner)
    obtain ⟨distinct', held, left⟩ := alike.of_perm distinct perm
    have foreign (t : TxnType) := checkForeign_eq_of_alike (t := t) (left (keysFor t))
    rw [decodeValue_map key distinct, decodeValue_map key distinct', readBy_eq_of_steady held]
    simp only [Transaction.foreign, foreign]
  | _ => cases h <;> rfl

end Transaction

/-! ## All types with canonical bytes -/

/-- Values in which no key repeats, and which differ only in the order in which maps hold their
entries, are decoded as the same, or fail in the same way. -/
theorem CanonicalType.decodeValue_reordered (t : CanonicalType) (key : String) {v v' : Value}
    (unrepeated : v.Unrepeated) (h : v.Reordered v') :
    (decodeValue key v : Except Error t.Val) = decodeValue key v' := by
  cases t with
  | header =>
    exact Record.steady_nested (@Header.lawful_fields 0).distinct Header.steady_fields unrepeated h
  | payment =>
    exact Record.steady_nested (@Payment.lawful_fields 0).distinct
      (Payload.steady_fieldsOf .payment) unrepeated h
  | keyRegistration =>
    exact Record.steady_nested (@KeyRegistration.lawful_fields 0).distinct
      (Payload.steady_fieldsOf .keyRegistration) unrepeated h
  | assetParams => exact AssetParams.steady_nested unrepeated h
  | assetConfig =>
    exact Record.steady_nested (@AssetConfig.lawful_fields 0).distinct
      (Payload.steady_fieldsOf .assetConfig) unrepeated h
  | assetTransfer =>
    exact Record.steady_nested (@AssetTransfer.lawful_fields 0).distinct
      (Payload.steady_fieldsOf .assetTransfer) unrepeated h
  | assetFreeze =>
    exact Record.steady_nested (@AssetFreeze.lawful_fields 0).distinct
      (Payload.steady_fieldsOf .assetFreeze) unrepeated h
  | transaction => exact Transaction.steady_nested unrepeated h
  | cosigner => exact Cosigner.steady_nested unrepeated h
  | multisig => exact Multisig.steady_nested unrepeated h
  | logicSig => exact LogicSig.steady_nested unrepeated h
  | envelope =>
    exact Record.steady_nested (@Envelope.lawful_fields 0).distinct
      ⟨steady_fixed, Multisig.steady_nested, LogicSig.steady_nested, Transaction.steady_nested,
        steady_fixed⟩ unrepeated h
  | group =>
    exact Record.steady_nested (@Group.lawful_fields 0).distinct (steady_list steady_fixed)
      unrepeated h

/-- A payment with fields of two other types is refused for the first of their keys, wherever that
stands. -/
theorem CanonicalType.decodeValue_reordered_foreign :
    let v : Value := .map [("xaid", .uint 1), ("type", .str "pay"),
      ("apar", .map [("t", .uint 0), ("un", .str "U")])]
    let v' : Value := .map [("apar", .map [("un", .str "U"), ("t", .uint 0)]),
      ("type", .str "pay"), ("xaid", .uint 1)]
    v.Unrepeated ∧ v.Reordered v' ∧
      (decodeValue rootKey v : Except Error Transaction) = decodeValue rootKey v' ∧
      (decodeValue rootKey v' : Except Error Transaction) =
        .error (.fieldNotAllowed "apar" .payment) := by
  intro v v'
  have unrepeated : v.Unrepeated := by
    refine .map (by decide) ?_
    simp only [List.forall_mem_cons]
    refine ⟨.uint 1, .str "pay", .map (by decide) ?_, nofun⟩
    simp only [List.forall_mem_cons]
    exact ⟨.uint 0, .str "U", nofun⟩
  have params : Value.Reordered (.map [("t", .uint 0), ("un", .str "U")])
      (.map [("un", .str "U"), ("t", .uint 0)]) := by
    refine .map rfl ?_ (List.reverse_perm [("un", Value.str "U"), ("t", .uint 0)])
    simp only [List.zip_cons_cons, List.forall_mem_cons]
    exact ⟨.same _, .same _, nofun⟩
  have reordered : v.Reordered v' := by
    let moved : List (String × Value) := [("xaid", .uint 1), ("type", .str "pay"),
      ("apar", .map [("un", .str "U"), ("t", .uint 0)])]
    refine @Value.Reordered.map _ moved _ rfl ?_ (List.reverse_perm moved).symm
    simp only [moved, List.zip_cons_cons, List.forall_mem_cons]
    exact ⟨.same _, .same _, params, nofun⟩
  refine ⟨unrepeated, reordered, ?_, by decide +kernel⟩
  exact CanonicalType.decodeValue_reordered .transaction rootKey unrepeated reordered

end LedgerCodec
