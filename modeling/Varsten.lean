import Varsten.Proxy.RoutingEligibility
import Varsten.Proxy.SseChunking
import Varsten.Proxy.BreakerAccounting
import Varsten.Proxy.Idempotency
import Varsten.Proxy.Truncation
import Varsten.Proxy.CacheSoundness
import Varsten.Proxy.StreamAgreement
import Varsten.Proxy.OpenAIStream
import Varsten.Proxy.SseRoundTrip
import Varsten.Proxy.Providers.Anthropic
import Varsten.Proxy.Providers.Gemini
import Varsten.Proxy.Trim
import Varsten.Proxy.DeliveredStreams
import Varsten.Proxy.MessageTexts
import Varsten.Proxy.ClientCompletions
import Varsten.Proxy.ClientTotals
import Varsten.Proxy.CallIdentity
import Varsten.Proxy.StreamVerdict
import Varsten.Pricing.Service
import Varsten.Proxy.Ledger
import Varsten.Proxy.CacheSavings
import Varsten.Savings.Measurement
import Varsten.Savings.Unpriced
import Varsten.Savings.Ingested
import Varsten.Machine.Runs
import Varsten.ControlPlane.Transitions
import Varsten.ControlPlane.Agreement
import Varsten.ControlPlane.Exclusion
import Varsten.ControlPlane.LiveRewrites
import Varsten.ControlPlane.Clearance
import Varsten.ControlPlane.Approval
import Varsten.ControlPlane.AutoApply
import Varsten.Engine.Bandit
import Varsten.Proxy.BanditCandidates
import Varsten.Engine.Planner
import Varsten.Machine.Effective
import Varsten.Pricing.PriceCache
import Varsten.Proxy.BatchPricing
import Varsten.Python.Calendar
import Varsten.Savings.Billing
import Varsten.Savings.Dashboard
import Varsten.Proxy.Canary
import Varsten.Savings.FeeCap
import Varsten.Savings.Summary
import Varsten.Savings.Classes
import Varsten.Savings.Signal
import Varsten.Machine.Overwrites
import Varsten.Accounts.Lifecycle
import Varsten.Accounts.Stripe
import Varsten.Accounts.Entitlements
import Varsten.ControlPlane.Alerts
import Varsten.Proxy.ProviderKeys
import Varsten.Proxy.Predicate
import Varsten.Eval.Capture
import Varsten.Eval.SmartRouting
import Varsten.Python.SquareRoots
import Varsten.Eval.Scoring
import Varsten.Eval.Runner
import Varsten.Eval.Overhead
import Varsten.Eval.AutomaticApply
import Varsten.Proxy.BatchJobs
import Varsten.Machine.ReadThrough
import Varsten.Proxy.PolicyCaches
import Varsten.Proxy.Resolution
import Varsten.Proxy.Origins
import Varsten.Eval.Corpus
import Varsten.Proxy.CacheOrigins
import Varsten.Machine.TtlStore
import Varsten.Proxy.CircuitHistory
import Varsten.Proxy.CircuitFleet
import Varsten.Sdk.LocalBreaker
import Varsten.Sdk.Classify
import Varsten.Sdk.Adapters
import Varsten.Sdk.Execute
import Varsten.Sdk.Probes
import Varsten.Proxy.AnthropicUsage
import Varsten.Machine.FirstSeen
import Varsten.Machine.Exchanges
import Varsten.Python.Equality
import Varsten.Proxy.TrimText
import Varsten.Proxy.Trimming
import Varsten.Proxy.TrimOrder
import Varsten.Proxy.TrimStable
import Varsten.Proxy.TrimQuestion
import Varsten.Proxy.TrimTools
import Varsten.Python.Returns
import Varsten.Proxy.StreamShapes
import Varsten.Proxy.AssemblyShapes
import Varsten.Proxy.RendererShapes
import Varsten.Proxy.RendererRuns
import Varsten.Proxy.UnbrokenStreams
import Varsten.Proxy.AnswerShapes
import Varsten.Proxy.WholeAnswers
import Varsten.Python.Floats
import Varsten.Python.Datetime
import Varsten.Savings.Periods
import Varsten.Proxy.Resilience
import Varsten.Proxy.CacheLife
import Varsten.Proxy.BatchConservation
import Varsten.Proxy.ModelNames
import Varsten.Proxy.AnsweringModel
import Varsten.Python.SameValue
import Varsten.Eval.AnswerParity
import Varsten.Proxy.FeaturePolicies
import Varsten.Proxy.PlannerParity
import Varsten.Engine.Learning
import Varsten.Engine.Outcomes
import Varsten.Machine.RankedCut
import Varsten.Machine.Gathered
import Varsten.Python.Precision
import Varsten.Proxy.Compression
import Varsten.Engine.Holdback
import Varsten.Machine.Quota
import Varsten.Core.RateLimit
import Varsten.Machine.Prefixes
import Varsten.Engine.PrefixAnalysis
import Varsten.Savings.ChartAxis
import Varsten.Python.JsonReader
import Varsten.Proxy.RequestMetadata
import Varsten.Sdk.Metadata
import Varsten.ControlPlane.ChangeRequests
import Varsten.Machine.SessionLocks
import Varsten.Core.Scheduler
import Varsten.Python.JsonAscii
import Varsten.Proxy.BudgetCaps
import Varsten.Accounts.ApiKeys
import Varsten.Proxy.BatchRetention
import Varsten.Accounts.Tenants
import Varsten.Proxy.NativePassthrough
import Varsten.Machine.UnitOfWork
import Varsten.ControlPlane.Recommendations
import Varsten.Python.Rounding
import Varsten.ControlPlane.Sessions
import Varsten.Machine.Commits
