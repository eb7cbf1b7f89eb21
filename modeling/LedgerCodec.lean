import LedgerCodec.Main
import LedgerCodec.Proofs.Bytes.Base32
import LedgerCodec.Proofs.Wire.RoundTrip
import LedgerCodec.Proofs.Wire.Grammar
import LedgerCodec.Proofs.Wire.Truncation
import LedgerCodec.Proofs.Wire.Shortest
import LedgerCodec.Proofs.Wire.Depth
import LedgerCodec.Proofs.Json.Printing
import LedgerCodec.Proofs.Json.Pretty
import LedgerCodec.Proofs.Json.Forms
import LedgerCodec.Proofs.Json.Members
import LedgerCodec.Proofs.Record.KeyOrder
import LedgerCodec.Proofs.Record.Rows
import LedgerCodec.Proofs.Record.Laws
import LedgerCodec.Proofs.Record.Exact
import LedgerCodec.Proofs.Record.Unrepeated
import LedgerCodec.Proofs.Record.Pushes
import LedgerCodec.Proofs.Record.Reads
import LedgerCodec.Proofs.Record.Spelling
import LedgerCodec.Proofs.Record.Reordered
import LedgerCodec.Proofs.Record.Carried
import LedgerCodec.Proofs.Record.Zeros
import LedgerCodec.Proofs.Record.Faults
import LedgerCodec.Proofs.Record.Unset
import LedgerCodec.Proofs.Record.Kept
import LedgerCodec.Proofs.Txn.Fields
import LedgerCodec.Proofs.Txn.Reading
import LedgerCodec.Proofs.Txn.RoundTrip
import LedgerCodec.Proofs.Hash.Pieces
import LedgerCodec.Proofs.Txn.Domains
import LedgerCodec.Proofs.Txn.Binding
import LedgerCodec.Proofs.Txn.Building
import LedgerCodec.Proofs.Txn.RepeatedKeys
import LedgerCodec.Proofs.Txn.Foreign
import LedgerCodec.Proofs.Txn.CanonicalForm
import LedgerCodec.Proofs.Txn.Assignment
import LedgerCodec.Proofs.Txn.InputPaths
import LedgerCodec.Proofs.Txn.JsonForms
import LedgerCodec.Proofs.Txn.JsonRoundTrip
import LedgerCodec.Proofs.Txn.IdText
import LedgerCodec.Proofs.Json.Accepted
import LedgerCodec.Proofs.Json.Shapes
import LedgerCodec.Proofs.Txn.Groups
import LedgerCodec.Proofs.Txn.FlatForm
import LedgerCodec.Proofs.Txn.UnknownKeys
import LedgerCodec.Proofs.Txn.Reordering
import LedgerCodec.Proofs.Txn.Carried
import LedgerCodec.Proofs.Txn.Zeros
import LedgerCodec.Proofs.Txn.Faults
import LedgerCodec.Proofs.Txn.Parts
import LedgerCodec.Proofs.Txn.Unset
import LedgerCodec.Proofs.Txn.Kept
import LedgerCodec.Proofs.Txn.Wrapping
import LedgerCodec.Proofs.Cli.Conversions
