import HttkWorkflow.System
import HttkWorkflow.PyValue
import HttkWorkflow.Errors
import HttkWorkflow.StateFrame
import HttkWorkflow.Validators
import HttkWorkflow.Effects
import HttkWorkflow.FileTree
import HttkWorkflow.Replay
import HttkWorkflow.MarkerRename
import HttkWorkflow.RecordChain
import HttkWorkflow.RenameVerdict
import HttkWorkflow.ReplaySteps
import HttkWorkflow.ReplayOperations
import HttkWorkflow.ReplayResume
import HttkWorkflow.ReplayAtomic
import HttkWorkflow.Commit
import HttkWorkflow.CommitChecks
import HttkWorkflow.DataGeneration
import HttkWorkflow.FrameStorage
import HttkWorkflow.JoinPass
import HttkWorkflow.OutcomePasses
import HttkWorkflow.JobRun
import HttkWorkflow.JobRunSteps
import HttkWorkflow.AttemptEvidence
import HttkWorkflow.JobEffects
import HttkWorkflow.OutcomeFencing
import HttkWorkflow.AttemptBudgets
import HttkWorkflow.DeferredPause
import HttkWorkflow.RestartEvidence
import HttkWorkflow.ConsumedOutcomes
import HttkWorkflow.CancellationProof
import HttkWorkflow.PersistentTakeover
import HttkWorkflow.LaunchGate
import HttkWorkflow.RequestHandling
import HttkWorkflow.RequestRecovery
import HttkWorkflow.JoinGrace
import HttkWorkflow.MarkerCreation
import HttkWorkflow.Ranges
import HttkWorkflow.BundleImport
import HttkWorkflow.CrashTriples
import HttkWorkflow.ImportResume
import HttkWorkflow.Journal
import HttkWorkflow.JournalAgreement
import HttkWorkflow.PayloadPlacement
import HttkWorkflow.Requirements
import HttkWorkflow.RequirementHistory
import HttkWorkflow.ManagerCapacity
import HttkWorkflow.GenerationRuns
import HttkWorkflow.MarkerLookup
import HttkWorkflow.Listing
import HttkWorkflow.MarkerMoves
import HttkWorkflow.OrphanSweep
import HttkWorkflow.Forest
import HttkWorkflow.MarkerStream
import HttkWorkflow.FrameNesting
import HttkWorkflow.RequestEscapes
import HttkWorkflow.SegmentStore
import HttkWorkflow.GarbageCollection
import HttkWorkflow.MarkerRepair
import HttkWorkflow.Repairability
import HttkWorkflow.ConcurrentCollection
import HttkWorkflow.JoinTransfers
import HttkWorkflow.LaterReplay
import HttkWorkflow.TransferNumbers
import HttkWorkflow.Retirement
import HttkWorkflow.JobflowDriver
import HttkWorkflow.JobflowInvariant
import HttkWorkflow.JobflowRuns
import HttkWorkflow.JobflowProgress
import HttkWorkflow.JobflowConfluence
import HttkWorkflow.JobListing
import HttkWorkflow.JobWalk
import HttkWorkflow.JobCursors
import HttkWorkflow.JobPages
import HttkWorkflow.MaintenanceLock
import HttkWorkflow.Registry
import HttkWorkflow.PwdRestart
import HttkWorkflow.AttemptDraft
import HttkWorkflow.AttemptPublication
import HttkWorkflow.RecordRefs
import HttkWorkflow.MarkerNames
import HttkWorkflow.Futures
import HttkWorkflow.JoinSemantics
import HttkWorkflow.WorkCensus
import HttkWorkflow.ChildRegistration
import HttkWorkflow.Detach
import HttkWorkflow.TransferredState
import HttkWorkflow.TransferFidelity
import HttkWorkflow.ChildLabels
import HttkWorkflow.CwlSourceNames
import HttkWorkflow.PayloadLinks
import HttkWorkflow.PayloadStream
import HttkWorkflow.ManagerDirectories
import HttkWorkflow.JobRemoval
import HttkWorkflow.RegistryErrors
import HttkWorkflow.CwlStepDirectories
import HttkWorkflow.TransactionStaging
import HttkWorkflow.WorkdirBatches
import HttkWorkflow.InterruptedCopy
import HttkWorkflow.LayeredOrder
import HttkWorkflow.PwdOrdering
import HttkWorkflow.OutputDeclarations
import HttkWorkflow.LineSplitting
import HttkWorkflow.SupervisedLines
import HttkWorkflow.LegacyNames
import HttkWorkflow.LegacySpawn
import HttkWorkflow.WorkspaceSettings
import HttkWorkflow.GroupedAnswers
import HttkWorkflow.Timeline
import HttkWorkflow.JobRecords
import HttkWorkflow.RecordRoundTrip
import HttkWorkflow.CollectSweep
import HttkWorkflow.CollectOnePerJob
import HttkWorkflow.TimelineBlocks
import HttkWorkflow.TimelineRuns
import HttkWorkflow.JobHistories
import HttkWorkflow.ReceiptStreams
import HttkWorkflow.BoundedCaptures
import HttkWorkflow.IncarText
import HttkWorkflow.IncarUpdate
import HttkWorkflow.TreeWrites
import HttkWorkflow.PayloadMembers
import HttkWorkflow.PayloadOverwrites
import HttkWorkflow.Diagnosis
import HttkWorkflow.RemedyLadder
import HttkWorkflow.RemedyRuns
