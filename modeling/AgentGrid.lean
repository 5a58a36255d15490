import AgentGrid.Foundation.Buffered
import AgentGrid.Foundation.Calls
import AgentGrid.Foundation.Comparators
import AgentGrid.Foundation.Cutting
import AgentGrid.Foundation.Dependency
import AgentGrid.Foundation.Gaps
import AgentGrid.Foundation.Grouping
import AgentGrid.Foundation.Inserts
import AgentGrid.Foundation.Ledger
import AgentGrid.Foundation.Lines
import AgentGrid.Foundation.Mounts
import AgentGrid.Foundation.Numerals
import AgentGrid.Foundation.Paging
import AgentGrid.Foundation.Pool
import AgentGrid.Foundation.Resumption
import AgentGrid.Foundation.Scanning
import AgentGrid.Foundation.Streaks
import AgentGrid.Foundation.Stream
import AgentGrid.Foundation.Substrings
import AgentGrid.Foundation.Table
import AgentGrid.Foundation.Threads
import AgentGrid.Foundation.Timeline
import AgentGrid.Foundation.Transactions
import AgentGrid.Foundation.Transition
import AgentGrid.Foundation.Voting
import AgentGrid.Foundation.Wildcards
import AgentGrid.Store.AdapterEnv
import AgentGrid.Store.Agents
import AgentGrid.Store.ApprovalSafety
import AgentGrid.Store.Approvals
import AgentGrid.Store.ArtifactRange
import AgentGrid.Store.ArtifactText
import AgentGrid.Store.Artifacts
import AgentGrid.Store.Attempts
import AgentGrid.Store.BatchLimit
import AgentGrid.Store.Batches
import AgentGrid.Store.CompletionAtomicity
import AgentGrid.Store.CompletionEffects
import AgentGrid.Store.CompletionTx
import AgentGrid.Store.Consensus
import AgentGrid.Store.ConsensusCollapse
import AgentGrid.Store.ConsensusOnce
import AgentGrid.Store.DiffScan
import AgentGrid.Store.Eligibility
import AgentGrid.Store.EventLog
import AgentGrid.Store.EventPrefix
import AgentGrid.Store.EventStream
import AgentGrid.Store.ExactlyOnce
import AgentGrid.Store.FencedWrites
import AgentGrid.Store.Frames
import AgentGrid.Store.Guarantees
import AgentGrid.Store.LedgerView
import AgentGrid.Store.Lifecycle
import AgentGrid.Store.ListingPages
import AgentGrid.Store.Listings
import AgentGrid.Store.Loss
import AgentGrid.Store.MetricSums
import AgentGrid.Store.NetworkGate
import AgentGrid.Store.Nodes
import AgentGrid.Store.OpencodeProfiles
import AgentGrid.Store.PermissionFlow
import AgentGrid.Store.ProfileHistory
import AgentGrid.Store.Reconcile
import AgentGrid.Store.Redelivery
import AgentGrid.Store.Refinement.Assignment
import AgentGrid.Store.Refinement.Attempts
import AgentGrid.Store.Refinement.Loss
import AgentGrid.Store.Refinement.Nodes
import AgentGrid.Store.RetryBudget
import AgentGrid.Store.Scheduler
import AgentGrid.Store.ScopeScan
import AgentGrid.Store.SealedSecrets
import AgentGrid.Store.Status
import AgentGrid.Store.Tables
import AgentGrid.Store.TaskInserts
import AgentGrid.Store.TaskRows
import AgentGrid.Store.Webhooks
import AgentGrid.Node.ArtifactSpool
import AgentGrid.Node.CohortSafety
import AgentGrid.Node.CommandGuard
import AgentGrid.Node.CompletionOutbox
import AgentGrid.Node.CompletionReads
import AgentGrid.Node.CompletionRedelivery
import AgentGrid.Node.ConflictMarkers
import AgentGrid.Node.DiskQuota
import AgentGrid.Node.Dispatch
import AgentGrid.Node.EventLineText
import AgentGrid.Node.EventOutbox
import AgentGrid.Node.EventSink
import AgentGrid.Node.FetchCohort
import AgentGrid.Node.GuardChaining
import AgentGrid.Node.GuardInvariance
import AgentGrid.Node.MetricPayload
import AgentGrid.Node.OutputStream
import AgentGrid.Node.Payload
import AgentGrid.Node.PayloadText
import AgentGrid.Node.ProfilePull
import AgentGrid.Node.Prune
import AgentGrid.Node.RedactorLoop
import AgentGrid.Node.RepoAttach
import AgentGrid.Node.RepoNames
import AgentGrid.Node.Respelling
import AgentGrid.Node.Sandbox
import AgentGrid.Node.SecretMasking
import AgentGrid.Node.SecretSafety
import AgentGrid.Node.SinkConservation
import AgentGrid.Node.Spend
import AgentGrid.Node.SpendAgreement
import AgentGrid.Node.SpoolQueue
import AgentGrid.Node.Worktrees
import AgentGrid.Ha.Carriers
import AgentGrid.Ha.ChangesetFormat
import AgentGrid.Ha.ChangesetListing
import AgentGrid.Ha.Changesets
import AgentGrid.Ha.Completeness
import AgentGrid.Ha.DurableVotes
import AgentGrid.Ha.Election
import AgentGrid.Ha.ElectionSafety
import AgentGrid.Ha.LogAgreement
import AgentGrid.Ha.Replication
import AgentGrid.Ha.Rewind
import AgentGrid.Ha.S3Xml
import AgentGrid.Ha.SingleStream
import AgentGrid.Ha.WriteFence
import AgentGrid.Workflow.Books
import AgentGrid.Workflow.Budget
import AgentGrid.Workflow.Custody
import AgentGrid.Workflow.Dag
import AgentGrid.Workflow.DagExact
import AgentGrid.Workflow.DagSafety
import AgentGrid.Workflow.Duplicates
import AgentGrid.Workflow.Effects
import AgentGrid.Workflow.Finality
import AgentGrid.Workflow.GatedRun
import AgentGrid.Workflow.Gating
import AgentGrid.Workflow.HandoffStreaks
import AgentGrid.Workflow.Handoffs
import AgentGrid.Workflow.PlanApproval
import AgentGrid.Workflow.PlanPause
import AgentGrid.Workflow.RetryRequest
import AgentGrid.Workflow.Schedules
import AgentGrid.Workflow.State
import AgentGrid.Workflow.Tick
import AgentGrid.CredGateway.Capabilities
import AgentGrid.CredGateway.CapabilitySafety
import AgentGrid.Acp.Bridging
import AgentGrid.Acp.Codec
import AgentGrid.Acp.Framing
import AgentGrid.Acp.Gateway
import AgentGrid.Acp.Replies
import AgentGrid.Acp.Requests
import AgentGrid.Auth.LoginRate
import AgentGrid.Common.Matching
import AgentGrid.Common.Policy
import AgentGrid.Common.Precedence
import AgentGrid.Common.Ranges
import AgentGrid.Common.ReqValidation
import AgentGrid.Common.Requirement
import AgentGrid.Common.Version
import AgentGrid.Edge.Forward
import AgentGrid.Edge.Headers
import AgentGrid.Edge.Hops
import AgentGrid.Edge.Paths
import AgentGrid.Skills.Encodings
import AgentGrid.Skills.Frontmatter
import AgentGrid.Skills.Scanner
