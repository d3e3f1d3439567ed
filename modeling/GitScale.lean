import GitScale.Basic
import GitScale.Foundation.Transition
import GitScale.Go.Strconv
import GitScale.Git.Metering
import GitScale.Git.ReceivePack
import GitScale.Outbox.System
import GitScale.Outbox.Delivery
import GitScale.Foundation.FirstOccurrence
import GitScale.Outbox.Ordering
import GitScale.Cache.Identity
import GitScale.Outbox.Topics
import GitScale.Invalidator.Consumer
import GitScale.Billing.DEKDestruction
import GitScale.Foundation.Script
import GitScale.Identity.Store
import GitScale.Identity.Transaction
import GitScale.Go.Strings
import GitScale.Identity.Service
import GitScale.Identity.Resolver
import GitScale.GraphQL.Document
import GitScale.GraphQL.Executor
import GitScale.Identity.Permissions
import GitScale.RestApi.IdentityHandlers
import GitScale.Identity.Atomicity
import GitScale.Access.AgentPermissions
import GitScale.Approval.Audit
import GitScale.Approval.Dsl
import GitScale.Approval.MemService
import GitScale.Approval.Quorum
import GitScale.Approval.Chain
import GitScale.Approval.Finality
import GitScale.Approval.Resolution
import GitScale.Approval.AuditTrail
import GitScale.Foundation.Loop
import GitScale.Approval.Escalation
import GitScale.Approval.Activity
import GitScale.Approval.Engine
import GitScale.Go.Calendar
import GitScale.Billing.Rollover
import GitScale.Billing.Events
import GitScale.Billing.ArchiveFormat
import GitScale.Billing.Restore
import GitScale.Billing.Archive
import GitScale.Billing.ArchiveObjects
import GitScale.Billing.ArchiveSafety
import GitScale.RateLimit.MemoryLimiter
import GitScale.CI.Workflow
import GitScale.Foundation.Dedup
import GitScale.Go.Text
import GitScale.AgentsMd.Policy
import GitScale.AgentsMd.Parser
import GitScale.AgentsMd.Evaluate
import GitScale.AgentsMd.Merge
import GitScale.AgentsMd.Hook
import GitScale.AgentsMd.GitalyReader
import GitScale.AgentsMd.DryRun
import GitScale.AgentsMd.BranchCreation
import GitScale.CI.Teardown
import GitScale.Foundation.Reader
import GitScale.GraphQL.Parser
import GitScale.GraphQL.Cost
import GitScale.GraphQL.Visits
import GitScale.GraphQL.WalkCalls
import GitScale.GraphQL.ChargeCoverage
import GitScale.GraphQL.ParserBounds
import GitScale.Foundation.Service
import GitScale.Foundation.Isolation
import GitScale.RateLimit.RedisLimiter
import GitScale.Cache.Stores
import GitScale.GraphQL.ExpandedCost
import GitScale.GraphQL.FollowerRead
import GitScale.GraphQL.QueryRoot
import GitScale.GraphQL.RepositoryLookup
import GitScale.GraphQL.CostMeter
import GitScale.GraphQL.FragmentExecution
import GitScale.GraphQL.Printer
import GitScale.GraphQL.RoundTrip
import GitScale.Foundation.Scan
import GitScale.GraphQL.Json
import GitScale.GraphQL.ObjectLiteral
import GitScale.GraphQL.JsonSyntax
import GitScale.GraphQL.LexemeConversion
import GitScale.GraphQL.LiteralConversion
import GitScale.GraphQL.Lexical
import GitScale.GraphQL.LexicalReading
import GitScale.GraphQL.Comments
import GitScale.GraphQL.CommentInsertion
import GitScale.Approval.ActivityRace
import GitScale.Billing.ArchiveStreams
import GitScale.GraphQL.PersistedQueries
import GitScale.GraphQL.RetryAfter
import GitScale.Approval.RefPattern
import GitScale.Approval.PlanHash
import GitScale.Foundation.Keyset
import GitScale.Go.Base64
import GitScale.Go.RFC3339
import GitScale.RestApi.Cursor
import GitScale.RestApi.RepositoryPages
import GitScale.Billing.Routers
import GitScale.Billing.ArchiveIntegrity
import GitScale.Cache.CompareAndSwap
import GitScale.RateLimit.RedisQuota
import GitScale.AgentsMd.NeverBlocks
import GitScale.AgentsMd.NeverSections
import GitScale.AgentsMd.PathGlobs
import GitScale.AgentsMd.SizeRules
import GitScale.AgentsMd.VacuousRules
import GitScale.Approval.CanonicalJson
import GitScale.Approval.FaithfulPayload
import GitScale.AgentsMd.SizeText
import GitScale.CI.Quota
import GitScale.CI.Charging
import GitScale.IssueNoise.Router
import GitScale.IssueNoise.FailOpen
import GitScale.IssueNoise.HoldExpiry
import GitScale.Mcp.Session
import GitScale.Foundation.Recorder
import GitScale.GraphQL.ParserTrace
import GitScale.GraphQL.DocumentValues
import GitScale.GraphQL.ConversionBounds
import GitScale.GraphQL.Multiplier
import GitScale.Foundation.Visited
import GitScale.Foundation.Separator
import GitScale.Go.Decimal
import GitScale.Go.JsonWriter
import GitScale.Go.JsonFields
import GitScale.Go.JsonRaw
import GitScale.Git.Enforcement
import GitScale.Cache.RepoLocation
import GitScale.Git.Locator
import GitScale.Billing.PartitionArchives
import GitScale.Billing.Service
import GitScale.Invalidator.Envelope
import GitScale.Invalidator.Revocation
import GitScale.RateLimit.Admission
