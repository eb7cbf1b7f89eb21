/-!
# Transaction types

The closed set of operations that a transaction can stand for, and the tag of
each in the `type` field.
-/

namespace LedgerCodec

/-- The operation that a transaction stands for. -/
inductive TxnType
  | payment
  /-- Registers or withdraws participation keys. -/
  | keyRegistration
  /-- Creates, changes or destroys an asset. -/
  | assetConfig
  | assetTransfer
  | assetFreeze
deriving DecidableEq, Repr

namespace TxnType

/-- All types, in the order of their tags. -/
def all : List TxnType :=
  [assetConfig, assetFreeze, assetTransfer, keyRegistration, payment]

/-- All types, in the order in which they are declared. -/
def declared : List TxnType :=
  [payment, keyRegistration, assetConfig, assetTransfer, assetFreeze]

def tag : TxnType → String
  | payment => "pay"
  | keyRegistration => "keyreg"
  | assetConfig => "acfg"
  | assetTransfer => "axfer"
  | assetFreeze => "afrz"

def ofTag? : String → Option TxnType
  | "pay" => some payment
  | "keyreg" => some keyRegistration
  | "acfg" => some assetConfig
  | "axfer" => some assetTransfer
  | "afrz" => some assetFreeze
  | _ => none

@[simp]
theorem ofTag?_tag (t : TxnType) : ofTag? t.tag = some t := by
  cases t <;> rfl

theorem tag_of_ofTag? {s : String} {t : TxnType} (h : ofTag? s = some t) : t.tag = s := by
  unfold ofTag? at h
  split at h <;> simp_all <;> subst h <;> rfl

end TxnType

end LedgerCodec
