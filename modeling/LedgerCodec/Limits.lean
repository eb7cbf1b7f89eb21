/-!
# Limits and sizes

The numbers that the network's participants agree on.
-/

namespace LedgerCodec

/-- The version of the library and of the command line. -/
def version : String := "0.1.0"

namespace Limits

/-- Bytes of a hash and of every digest. -/
def digestLength : Nat := 32

/-- Bytes of an account address. -/
def addressLength : Nat := 32

/-- Bytes of a signature. -/
def signatureLength : Nat := 64

/-- Bytes of a lease. -/
def leaseLength : Nat := 32

/-- The most transactions of one group. -/
def groupSize : Nat := 16

/-- The most containers that a decoded value may nest. -/
def nesting : Nat := 32

end Limits

end LedgerCodec
