import DolphinVC.Arithmetic.Rounding
import DolphinVC.Arithmetic.WeightedMean
import DolphinVC.Transition.Run
import DolphinVC.Relational.Table
import DolphinVC.Relational.Page
import DolphinVC.Transaction.Program
import DolphinVC.Transaction.Session
import DolphinVC.Transaction.Commits
import DolphinVC.Transaction.World
import DolphinVC.Transaction.Atomic
import DolphinVC.Transaction.Segment
import DolphinVC.Transaction.Rely
import DolphinVC.Transaction.Versioned
import DolphinVC.Transaction.Evidence
import DolphinVC.Transaction.View
import DolphinVC.Transaction.Blind
import DolphinVC.Types
import DolphinVC.Errors
import DolphinVC.Db.Models
import DolphinVC.Db.State
import DolphinVC.Db.Session
import DolphinVC.Db.Frame
import DolphinVC.Config
import DolphinVC.Services.Auth
import DolphinVC.Services.Ingestion
import DolphinVC.Services.Jobs
import DolphinVC.Services.Pipeline
import DolphinVC.Text.Regex
import DolphinVC.Services.Score
import DolphinVC.Services.Extraction
import DolphinVC.Services.FounderScore
import DolphinVC.Services.Opportunities
import DolphinVC.Services.Applications
import DolphinVC.Deps
import DolphinVC.Routers.Auth
import DolphinVC.Routers.Deals
import DolphinVC.Routers.Theses
import DolphinVC.Routers.Entities
import DolphinVC.Routers.Operations
import DolphinVC.Routers.Orgs
import DolphinVC.Verification.RepoOwners
import DolphinVC.Verification.Erasure
import DolphinVC.Verification.Lockout
import DolphinVC.Verification.IssuedTokens
import DolphinVC.Verification.AuthWrites
import DolphinVC.Verification.SessionFamilies
import DolphinVC.Verification.RefreshRotation
import DolphinVC.Verification.PipelineWrites
import DolphinVC.Verification.HarvestLoop
import DolphinVC.Verification.Deals
import DolphinVC.Verification.LiveOpportunity
import DolphinVC.Verification.Credentials
import DolphinVC.Verification.PrivateSignals
import DolphinVC.Verification.HarvestedSignals
import DolphinVC.Verification.Submissions
import DolphinVC.Verification.LostUpdates
import DolphinVC.Verification.Tenancy
import DolphinVC.Verification.References
import DolphinVC.Verification.DeckClaims
import DolphinVC.Verification.RepeatedHarvest
import DolphinVC.Verification.HarvestReports
import DolphinVC.Services.Llm
import DolphinVC.Verification.ProviderFallback
import DolphinVC.Verification.ResetLinks
import DolphinVC.Verification.QueryPhrases
import DolphinVC.Verification.Recommendation
import DolphinVC.Verification.FounderScores
import DolphinVC.Verification.FounderTrends
import DolphinVC.Verification.SignalCounts
import DolphinVC.Verification.IndependentSources
import DolphinVC.Verification.FailedRuns
import DolphinVC.Verification.TrustOrder
import DolphinVC.Verification.InjectedLines
import DolphinVC.Transaction.Answered
import DolphinVC.Verification.AxisVersions
import DolphinVC.Text.Calendar
import DolphinVC.Text.Digits
import DolphinVC.Services.Utils
import DolphinVC.Routers.Memos
import DolphinVC.Verification.MemoHistory
import DolphinVC.Relational.Keyset
import DolphinVC.Routers.Jobs
import DolphinVC.Verification.EventStream
import DolphinVC.Text.Base64
import DolphinVC.Services.Listing
import DolphinVC.Verification.Pagination
import DolphinVC.Transaction.Alone
import DolphinVC.Transaction.OneCommit
import DolphinVC.Routers.Founders
import DolphinVC.Verification.Identities
import DolphinVC.Verification.EmptyKeys
import DolphinVC.Verification.MergedFounders
import DolphinVC.Verification.MergeForest
import DolphinVC.Verification.ThesisWrites
import DolphinVC.Verification.StoredTheses
import DolphinVC.Verification.Signups
import DolphinVC.Verification.Deactivation
import DolphinVC.Verification.DefaultThesis
import DolphinVC.Verification.Outreach
import DolphinVC.Verification.Owners
import DolphinVC.Verification.Provenance
import DolphinVC.Verification.SlaBreach
import DolphinVC.Verification.Decisions
import DolphinVC.Verification.Logout
import DolphinVC.Routers.Orgs
import DolphinVC.Verification.TrustMonotone
import DolphinVC.Verification.InvestmentBar
import DolphinVC.Verification.ThesisFit
import DolphinVC.Services.Memo
import DolphinVC.Verification.MemoSections
import DolphinVC.Verification.FlaggedClaims
import DolphinVC.Verification.CachedPages
import DolphinVC.Text.RegexFirst
import DolphinVC.Verification.AmountText
import DolphinVC.Verification.MoneyAmounts
import DolphinVC.Verification.ScaleSuffix
import DolphinVC.Text.Json
import DolphinVC.Transaction.Trace
import DolphinVC.Transition.SlidingLog
import DolphinVC.Middleware
import DolphinVC.Verification.RateLimit
import DolphinVC.Verification.OrgSlugs
import DolphinVC.Text.Replace
import DolphinVC.Text.Words
import DolphinVC.Services.Search
import DolphinVC.Verification.SearchFilters
import DolphinVC.Relational.Ranking
import DolphinVC.Verification.SearchRanking
import DolphinVC.Transition.Trail
import DolphinVC.Verification.RequestWrites
import DolphinVC.Verification.AuditTrail
import DolphinVC.Verification.JobWrites
import DolphinVC.Verification.JobLifecycle
import DolphinVC.Verification.FundRows
import DolphinVC.Verification.FencedRequests
import DolphinVC.Verification.FencedRuns
import DolphinVC.Verification.WriteIsolation
import DolphinVC.Verification.TrackingTokens
import DolphinVC.Arithmetic.Binary64
