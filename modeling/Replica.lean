import Replica.Main
import Replica.Pull.Processor
import Replica.Query.Catalog
import Replica.Proofs.Pull.Rollback
import Replica.Proofs.Query.Relational
import Replica.Proofs.Query.Rendering
import Replica.Proofs.Revision.AncestorOrder
import Replica.Proofs.Pull.Insertion
import Replica.Proofs.Pull.InsertionOrder
import Replica.Proofs.Pull.Steps
import Replica.Proofs.Entries
import Replica.Proofs.Pull.WholeFragments
import Replica.Proofs.Attachment.Contents
import Replica.Proofs.Pull.Integrity
import Replica.Proofs.Json.Scanning
import Replica.Proofs.Json.Reading
import Replica.Proofs.Json.Decoding
import Replica.Proofs.Revision.Names
import Replica.Proofs.Revision.WireForm
import Replica.Proofs.Query.Edits
import Replica.Proofs.Pull.Preservation
import Replica.Proofs.Pull.Staging
import Replica.Proofs.Pull.Openings
import Replica.Proofs.Pull.Workers
import Replica.Proofs.Pull.Schedules
import Replica.Proofs.Pull.Records
import Replica.Proofs.Pull.Delivery
import Replica.Proofs.Pull.Repetition
import Replica.Proofs.Pull.Unbroken
import Replica.Proofs.Storage.Interchange
import Replica.Proofs.Pull.Ledger
import Replica.Proofs.Pull.OtherDocuments
import Replica.Proofs.Pull.Commuting
import Replica.Proofs.Query.Readability
import Replica.Proofs.Query.Registration
import Replica.Proofs.Storage.Contract
import Replica.Proofs.Storage.Reading
import Replica.Proofs.Attachment.Fidelity
import Replica.Proofs.Pull.Recording
import Replica.Proofs.Pull.Permitted
import Replica.Proofs.Query.Acceptance
import Replica.Proofs.Pull.Acceptance
import Replica.Proofs.Pull.Retrying
import Replica.Proofs.Pull.Attempts
import Replica.Proofs.Pull.RetryCount
import Replica.Proofs.Numerals
import Replica.Proofs.Pull.Backoff
import Replica.Proofs.Query.IndexTypes
import Replica.Proofs.Query.Requests
import Replica.Proofs.Storage.Streaming
import Replica.Proofs.Query.Quoting
import Replica.Proofs.Revision.Construction
