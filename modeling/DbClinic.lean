import DbClinic.Persistence.Registry
import DbClinic.Server.TokenAgreement
import DbClinic.Server.CheckpointSteps
import DbClinic.Server.SingleWriter
import DbClinic.Server.ProxyRouting
import DbClinic.Server.CancelScope
import DbClinic.Server.ProxyReceivers
import DbClinic.Persistence.BackendAgreement
import DbClinic.Runtime.ToolAuthorization
import DbClinic.Runtime.JsonExactness
import DbClinic.Runtime.SessionEncodings
import DbClinic.Runtime.PersistenceAgreement
import DbClinic.Server.ResumeRecovery
import DbClinic.Runtime.ApprovalTokens
import DbClinic.Runtime.WorkerFinal
import DbClinic.Api.StreamTranslation
import DbClinic.Api.SseIndependence
import DbClinic.Runtime.WorkspaceContainment
import DbClinic.Tools.Enforcement
import DbClinic.Tools.BashClassification
import DbClinic.Mcp.LifecycleRuns
import DbClinic.Mcp.ServerReplies
import DbClinic.Mcp.ManagerSafety
import DbClinic.Gateway.ChatDelivery
import DbClinic.Runtime.SummaryTimeline
import DbClinic.Runtime.ReportLeaks
import DbClinic.Plugins.Restart
import DbClinic.Runtime.PromptMode
import DbClinic.Runtime.RuleEscaping
import DbClinic.Runtime.EnvPrefix
import DbClinic.Runtime.WriteBoundary
import DbClinic.Api.RealClientBlocks
import DbClinic.Gateway.UserConfig
import DbClinic.Api.PairingFixpoint
import DbClinic.Api.RetryRuns
import DbClinic.Runtime.BraceExpansion
import DbClinic.Runtime.GrepSearch
import DbClinic.Gateway.SkillMatcher
import DbClinic.Gateway.SessionHistory
import DbClinic.Tools.AllowedTools
import DbClinic.Runtime.UsageAccounting
import DbClinic.Runtime.LaneDeduplication
import DbClinic.Mcp.Pagination
import DbClinic.Runtime.BranchLock
import DbClinic.Runtime.HookInputs
import DbClinic.Runtime.LaneCommits
import DbClinic.Runtime.ReportCanonical
import DbClinic.Runtime.SummaryCompression
import DbClinic.Mcp.CommandSignature
import DbClinic.Mcp.ProxyUrl
import DbClinic.Runtime.SessionLookup
import DbClinic.Runtime.TrustAgreement
import DbClinic.Runtime.IncrementalSse
import DbClinic.Runtime.CivilDate
import DbClinic.Runtime.OAuthQuery
import DbClinic.Runtime.OAuthCredentials
import DbClinic.Tools.PlanModeRuns
import DbClinic.Api.RecordedUsage
import DbClinic.Tools.PdfEscapes
import DbClinic.Cli.FenceLengths
import DbClinic.Cli.SafeCuts
import DbClinic.Cli.SlashCommands
import DbClinic.Lib.EditDistance
import DbClinic.Runtime.Base64Url
import DbClinic.Runtime.FieldSuggestion
import DbClinic.Tools.HtmlText
import DbClinic.Tools.NotebookEdit
import DbClinic.Tools.PageScan
import DbClinic.Tools.RoadmapItems
