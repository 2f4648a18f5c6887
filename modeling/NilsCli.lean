import NilsCli.Lib.PathOrder
import NilsCli.Coordination.WakeupOnce
import NilsCli.Coordination.ReceiptLife
import NilsCli.Coordination.QuotaSignal
import NilsCli.Coordination.Refusal
import NilsCli.Coordination.Capacity
import NilsCli.Coordination.Upkeep
import NilsCli.Coordination.InboxPages
import NilsCli.Coordination.Custody
import NilsCli.Coordination.HeartbeatState
import NilsCli.Coordination.ReadEvents
import NilsCli.Coordination.Admission
import NilsCli.Activity.Dedupe
import NilsCli.Activity.JournalFile
import NilsCli.Activity.TurnState
import NilsCli.AutoResume.Budget
import NilsCli.Board.CatchUp
import NilsCli.Lineage.Adoption
import NilsCli.Lib.Probing
import NilsCli.Prompts.Finality
import NilsCli.Workspace.Replays
import NilsCli.Review.Races
import NilsCli.Review.Path
import NilsCli.Review.StateMarkers
import NilsCli.Review.NewestReport
import NilsCli.Review.Receipts
import NilsCli.Review.LoopRuns
import NilsCli.FinishLine.Exclusion
import NilsCli.FinishLine.Rotation
import NilsCli.FinishLine.Verdicts
import NilsCli.FinishLine.Owners
import NilsCli.FinishLine.Terminals
import NilsCli.Worktree.Symlinks
import NilsCli.Worktree.SnapshotId
import NilsCli.StepJournal.Survival
import NilsCli.Evidence.Backing
import NilsCli.Evidence.Applied
import NilsCli.Evidence.Batch
import NilsCli.Scrub.Patterns
import NilsCli.Tracker.Cycles
import NilsCli.Tracker.Graph
import NilsCli.Tracker.Tick
import NilsCli.DataPolicy.Redaction
import NilsCli.Notice.Runs
import NilsCli.Convergence.ChangeRequests
import NilsCli.Convergence.Converge
import NilsCli.Convergence.Recheck
import NilsCli.Devlog.FoldCrash
import NilsCli.Devlog.Written
import NilsCli.Devlog.Merge
import NilsCli.Devlog.Indexed
import NilsCli.ScopeLock.Guard
import NilsCli.Coordination.SchemaFences
import NilsCli.ReadOnly.Quotes
import NilsCli.Notice.Envelope
