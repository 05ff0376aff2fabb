import RemoteUpdate.Failure
import RemoteUpdate.Mailbox.RegisterMap
import RemoteUpdate.Mailbox.Cursor
import RemoteUpdate.Mailbox.Wire
import RemoteUpdate.Mailbox.Report
import RemoteUpdate.Table.Pointers
import RemoteUpdate.Mailbox.RegisterBlock
import RemoteUpdate.Mailbox.Exchange
import RemoteUpdate.Mailbox.Requests
import RemoteUpdate.Sdm.Registers
import RemoteUpdate.Flash.Emulated
import RemoteUpdate.Flash.Faults
import RemoteUpdate.Flash.Partition
import RemoteUpdate.Flash.Plan
import RemoteUpdate.Session.Slots
import RemoteUpdate.Session.Status
import RemoteUpdate.Host.FileFlash
import RemoteUpdate.Main
import RemoteUpdate.Proofs.Flash.Cells
import RemoteUpdate.Proofs.Flash.Changes
import RemoteUpdate.Proofs.Runs
import RemoteUpdate.Proofs.Table.Codec
import RemoteUpdate.Proofs.Table.Partitions
import RemoteUpdate.Proofs.Table.Pointers
import RemoteUpdate.Proofs.Table.BootOrder
import RemoteUpdate.Proofs.Session.Effects
import RemoteUpdate.Proofs.Session.Operations
import RemoteUpdate.Proofs.Session.Directory
import RemoteUpdate.Proofs.Session.Integrity
import RemoteUpdate.Proofs.Session.Invariance
import RemoteUpdate.Proofs.Flash.Formatting
import RemoteUpdate.Proofs.Session.WellFormedness
import RemoteUpdate.Proofs.Session.BootSafety
import RemoteUpdate.Proofs.Session.Catalog
import RemoteUpdate.Proofs.Mailbox.Headers
import RemoteUpdate.Proofs.Mailbox.Ring
import RemoteUpdate.Proofs.Sdm.Answers
import RemoteUpdate.Proofs.Sdm.Queues
import RemoteUpdate.Proofs.Sdm.Registers
import RemoteUpdate.Proofs.Mailbox.Sending
import RemoteUpdate.Proofs.Mailbox.Collecting
import RemoteUpdate.Proofs.Mailbox.Answering
import RemoteUpdate.Proofs.Mailbox.Exchange
import RemoteUpdate.Proofs.Mailbox.Dialogue
import RemoteUpdate.Proofs.Mailbox.Invariants
import RemoteUpdate.Proofs.Mailbox.Soundness
import RemoteUpdate.Proofs.Mailbox.Attribution
import RemoteUpdate.Proofs.Mailbox.Delivery
import RemoteUpdate.Proofs.Mailbox.Restarting
import RemoteUpdate.Proofs.Session.Footprint
import RemoteUpdate.Proofs.Session.Frame
import RemoteUpdate.Proofs.Session.Copies
import RemoteUpdate.Proofs.Session.Stages
import RemoteUpdate.Proofs.Session.Anchoring
import RemoteUpdate.Proofs.Session.Retrying
import RemoteUpdate.Proofs.Session.Surviving
import RemoteUpdate.Proofs.Mailbox.Conduct
import RemoteUpdate.Proofs.Mailbox.Accesses
import RemoteUpdate.Proofs.Mailbox.Calls
import RemoteUpdate.Proofs.Mailbox.Patience
import RemoteUpdate.Proofs.Sdm.Stirring
import RemoteUpdate.Proofs.Mailbox.Lossless
import RemoteUpdate.Proofs.Mailbox.Streaming
import RemoteUpdate.Proofs.Mailbox.Announcing
import RemoteUpdate.Proofs.Mailbox.Framing
import RemoteUpdate.Proofs.Session.Calls
import RemoteUpdate.Proofs.Session.Room
import RemoteUpdate.Proofs.Mailbox.Remembering
import RemoteUpdate.Proofs.Session.BootSelection
import RemoteUpdate.Proofs.Table.Bounds
import RemoteUpdate.Proofs.Session.Composition
import RemoteUpdate.Proofs.Session.Conclusion
import RemoteUpdate.Proofs.Session.Bounds
import RemoteUpdate.Proofs.Flash.Watching
import RemoteUpdate.Proofs.Session.Confinement
import RemoteUpdate.Proofs.Table.Layout
import RemoteUpdate.Proofs.Session.Refusals
import RemoteUpdate.Proofs.Session.Atomicity
import RemoteUpdate.Proofs.Session.Contents
import RemoteUpdate.Proofs.Mailbox.Overlaying
import RemoteUpdate.Proofs.Mailbox.Reporting
import RemoteUpdate.Proofs.Mailbox.Persisting
import RemoteUpdate.Proofs.Mailbox.Splitting
import RemoteUpdate.Proofs.Host.Files
import RemoteUpdate.Proofs.Host.Mirroring
import RemoteUpdate.Proofs.CommandLine.InStep
import RemoteUpdate.Proofs.CommandLine.Processes
import RemoteUpdate.Proofs.Session.Notifying
import RemoteUpdate.Proofs.Session.Restoring
import RemoteUpdate.Proofs.Table.Histories
import RemoteUpdate.Proofs.Mailbox.Draining
import RemoteUpdate.Proofs.Host.Persistence
import RemoteUpdate.Proofs.Flash.Placement
import RemoteUpdate.Proofs.Mailbox.Acknowledging
import RemoteUpdate.Proofs.Mailbox.Opening
import RemoteUpdate.Proofs.Table.Overlaps
import RemoteUpdate.Proofs.Mailbox.Packing
import RemoteUpdate.Proofs.Mailbox.Turns
