import Ottto.Runs
import Ottto.Counting
import Ottto.Coverage
import Ottto.Reconcile
import Ottto.Phases
import Ottto.ClosedTurns
import Ottto.TurnMoney
import Ottto.UiFlow
import Ottto.Entries
import Ottto.Deferred
import Ottto.Reuse
import Ottto.Tombstones
import Ottto.Retirement
import Ottto.TailBytes
import Ottto.TailCodec
import Ottto.TailTypes
import Ottto.TailVerify
import Ottto.TailRoundTrip
import Ottto.Recency
import Ottto.SectionCache
import Ottto.CanonicalJson
import Ottto.CanonicalIdentity
import Ottto.Ack
import Ottto.Interning
import Ottto.TailHead
import Ottto.TailStore
import Ottto.TailContent
import Ottto.TailView
import Ottto.TailWrite
import Ottto.TailRefine
import Ottto.TailRevisions
import Ottto.TailStaging
import Ottto.GraphRows
import Ottto.GraphSave
import Ottto.GraphRefine
import Ottto.GraphDelta
import Ottto.BirthStore
import Ottto.BirthMinima
import Ottto.BirthRuns
import Ottto.BirthRestore
import Ottto.Base64
import Ottto.CopyRemovals
import Ottto.CopyGroups
import Ottto.CopyEntries
import Ottto.CopyCodec
import Ottto.CopyRuns
import Ottto.Sha256
import Ottto.UsageLedger
import Ottto.LedgerJoin
import Ottto.LedgerOwners
import Ottto.Cadence
import Ottto.CadenceRuns
import Ottto.Continuation
import Ottto.ContinuationRuns
import Ottto.Quarantine
import Ottto.UploadIndex
import Ottto.Progress
import Ottto.ProgressCycle
import Ottto.ProgressFile
import Ottto.PendingHeads
import Ottto.AckRetention
import Ottto.LedgerInvariant
import Ottto.LedgerSelect
import Ottto.LedgerHeads
import Ottto.LedgerRuns
import Ottto.AckRecovery
import Ottto.AckRuns
import Ottto.Committable
import Ottto.Committed
import Ottto.Cumulative
import Ottto.CreditGrants
import Ottto.CreditSummaries
import Ottto.ClaudeRecords
import Ottto.ClaudeResolve
import Ottto.ClaudeOrder
import Ottto.ClaudePermuted
import Ottto.CodexRecord
import Ottto.JoinProof
import Ottto.JoinTrace
import Ottto.JoinChain
import Ottto.JoinFinal
import Ottto.JsonInt
import Ottto.ContractRetry
import Ottto.ReofferExtension
import Ottto.TailHeadExact
import Ottto.ReofferDecode
import Ottto.ReofferLimits
import Ottto.ReofferSchedule
import Ottto.AckAdmission
import Ottto.Greedy
import Ottto.Packing
import Ottto.PackingLaws
import Ottto.UploadLoop
import Ottto.PackingPartition
import Ottto.PackingPass
import Ottto.Paging
import Ottto.UploadEnds
import Ottto.TailRowRuns
import Ottto.TailPurge
import Ottto.BirthCodec
import Ottto.BirthReads
import Ottto.BirthText
import Ottto.BirthLayouts
import Ottto.BirthRoundTrip
import Ottto.CandidateDecision
import Ottto.Fronts
import Ottto.CensusJoin
import Ottto.CandidateHolds
import Ottto.ReportedUsage
import Ottto.EmitExact
import Ottto.CappedFeed
import Ottto.Checked
import Ottto.FinishExact
import Ottto.ShellEval
import Ottto.ShellOutline
import Ottto.ShellPaths
import Ottto.ShellSegments
import Ottto.CensusBulk
import Ottto.CensusPieces
import Ottto.CensusCodec
import Ottto.CensusStore
import Ottto.JoinPlan
import Ottto.JoinProbes
import Ottto.Ranges
import Ottto.SkipRuns
import Ottto.MemberIndex
import Ottto.RootOrder
import Ottto.LatestRequests
import Ottto.AccountDisplay
import Ottto.CurrentAccount
import Ottto.Smallest
import Ottto.ContextPoints
import Ottto.NewestKeys
import Ottto.CompactionEvents
import Ottto.CompactionExact
import Ottto.CompactionGaps
import Ottto.HeaderInventory
import Ottto.HeaderCensus
import Ottto.StartVerdicts
import Ottto.StartVerdictLog
import Ottto.StartVerdictRuns
import Ottto.StartVerdictAgree
