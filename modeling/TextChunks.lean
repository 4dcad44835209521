import TextChunks.TextSplitter
import TextChunks.Main
import TextChunks.Proofs.Budget
import TextChunks.Proofs.Disjoint
import TextChunks.Proofs.Lossless
import TextChunks.Proofs.Segmentation
import TextChunks.Proofs.Loop
import TextChunks.Proofs.Carried
import TextChunks.Proofs.Lines
import TextChunks.Proofs.Shape
import TextChunks.Proofs.Resumption
import TextChunks.Proofs.MoreWindows
import TextChunks.Proofs.AlignedBudget
import TextChunks.Proofs.Skipped
import TextChunks.Proofs.Payload
import TextChunks.Proofs.Writable
import TextChunks.Proofs.PostProcessing
import TextChunks.Proofs.Identity
import TextChunks.Proofs.Parallel
import TextChunks.Proofs.Maintained
import TextChunks.Proofs.Reused
import TextChunks.Proofs.Breaking
import TextChunks.Proofs.Runs
import TextChunks.Proofs.Reading
import TextChunks.Proofs.Snapshot
import TextChunks.Proofs.Overrides
import TextChunks.Proofs.Prepared
import TextChunks.Proofs.Accepted
import TextChunks.Proofs.Blame
import TextChunks.Proofs.Agreement
import TextChunks.Proofs.Served
import TextChunks.Proofs.Readiness
import TextChunks.Proofs.Rejected
import TextChunks.Proofs.StoredDocuments
import TextChunks.Proofs.Probe
import TextChunks.Proofs.ReadBack
import TextChunks.Proofs.LoadedOnce
import TextChunks.Proofs.LogSetup
import TextChunks.Proofs.Separators
import TextChunks.Proofs.LastMark
