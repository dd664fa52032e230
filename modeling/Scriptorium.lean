import Scriptorium.Batch
import Scriptorium.Config.Storage
import Scriptorium.Host.Loading
import Scriptorium.Proofs.Splice
import Scriptorium.Proofs.Change.Collapse
import Scriptorium.Proofs.Document.Run
import Scriptorium.Proofs.Document.Delta
import Scriptorium.Proofs.Document.Replay
import Scriptorium.Proofs.Document.Window
import Scriptorium.Proofs.Batch.Settled
import Scriptorium.Proofs.Batch.Nesting
import Scriptorium.Proofs.Batch.Listing
import Scriptorium.Proofs.Batch.Reports
import Scriptorium.Proofs.Batch.Undo
import Scriptorium.Proofs.Change.Condense
import Scriptorium.Proofs.Document.Compose
import Scriptorium.Proofs.Lines.Starts
import Scriptorium.Proofs.Lines.Conversion
import Scriptorium.Proofs.Lines.Division
import Scriptorium.Proofs.Document.Extent
import Scriptorium.Proofs.Batch.Singly
import Scriptorium.Proofs.Document.Offsets
import Scriptorium.Proofs.Host.Order
import Scriptorium.Proofs.Host.Isolation
import Scriptorium.Proofs.Host.Refusal
import Scriptorium.Proofs.Host.Versions
import Scriptorium.Proofs.Host.Ledger
import Scriptorium.Proofs.Batch.Simultaneous
import Scriptorium.Proofs.Config.Loading
import Scriptorium.Proofs.Text.Order
import Scriptorium.Proofs.Files.Scanning
import Scriptorium.Proofs.Files.Registering
