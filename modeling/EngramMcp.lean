import EngramMcp.Infra.Run
import EngramMcp.Infra.HashMap
import EngramMcp.Infra.Text
import EngramMcp.Infra.BTreeSet
import EngramMcp.Infra.Base64
import EngramMcp.Infra.Json
import EngramMcp.OAuth.Scope
import EngramMcp.OAuth.RefreshStore
import EngramMcp.OAuth.RefreshRun
import EngramMcp.Properties.Rotation
import EngramMcp.Properties.FailureAtomicity
import EngramMcp.Properties.Reopen
import EngramMcp.OAuth.Records
import EngramMcp.OAuth.Signing
import EngramMcp.OAuth.Client
import EngramMcp.Infra.Sha256
import EngramMcp.OAuth.Reference
import EngramMcp.Properties.Registration
import EngramMcp.OAuth.Authorization
import EngramMcp.OAuth.Token
import EngramMcp.Properties.Consent
import EngramMcp.Properties.CodeSingleUse
import EngramMcp.OAuth.ServerRun
import EngramMcp.Properties.Escalation
import EngramMcp.Properties.Replay
import EngramMcp.Infra.Utf8
import EngramMcp.Infra.UnixPath
import EngramMcp.Infra.FileSystem
import EngramMcp.Kb.Scope
import EngramMcp.Kb.Document
import EngramMcp.Kb.Search
import EngramMcp.Kb.Config
import EngramMcp.Kb.Inbox
import EngramMcp.Kb.Reference
import EngramMcp.Properties.Noninterference
import EngramMcp.Properties.InboxWriteOnly
import EngramMcp.Infra.Lexical
import EngramMcp.Infra.TokenBucket
import EngramMcp.Kb.InboxRun
import EngramMcp.Kb.InboxInv
import EngramMcp.Kb.Limiter
import EngramMcp.Kb.AppendNote
import EngramMcp.Properties.Confinement
import EngramMcp.Properties.SearchRanking
import EngramMcp.Properties.AppendOnly
import EngramMcp.Properties.FailedAppend
import EngramMcp.Properties.RefreshFrame
import EngramMcp.Properties.SignedCredentials
import EngramMcp.Properties.ClientAuthentication
import EngramMcp.Properties.TokenLifetime
import EngramMcp.Properties.HourlyBudget
import EngramMcp.Properties.Quota
import EngramMcp.Infra.Utf8Prefix
import EngramMcp.Properties.Truncation
import EngramMcp.Properties.FetchAfterSearch
import EngramMcp.Properties.FrontMatter
import EngramMcp.Properties.RateLimits
import EngramMcp.Infra.Calendar
import EngramMcp.Infra.FixedWidth
import EngramMcp.Properties.Calendar
import EngramMcp.Infra.Decimal
import EngramMcp.Properties.NoteOrder
import EngramMcp.Properties.NoteNames
import EngramMcp.Infra.LossyUtf8
import EngramMcp.Properties.SearchSuccess
import EngramMcp.Properties.OddFile
import EngramMcp.Infra.Host
import EngramMcp.Infra.Html
import EngramMcp.Infra.Lowercase
import EngramMcp.Properties.Occurred
import EngramMcp.Properties.RedirectPolicy
import EngramMcp.Properties.ConsentPage
import EngramMcp.Properties.Verbatim
import EngramMcp.Properties.Snippet
import EngramMcp.Infra.Hex
import EngramMcp.Infra.Unwinding
import EngramMcp.Http.Authenticator
import EngramMcp.Http.Tools
import EngramMcp.Http.Service
import EngramMcp.Http.ServiceRun
import EngramMcp.Http.ServiceInv
import EngramMcp.Http.NotesInv
import EngramMcp.Http.Started
import EngramMcp.Http.Reference
import EngramMcp.Http.Answers
import EngramMcp.Properties.Accountability
import EngramMcp.Properties.AuditTrail
import EngramMcp.Properties.WaitFree
import EngramMcp.Properties.TechView
import EngramMcp.Properties.Session
import EngramMcp.Properties.CodeRedeemable
import EngramMcp.Properties.ScopedSearch
import EngramMcp.Properties.ToolAnswers
import EngramMcp.Properties.Receipts
import EngramMcp.Properties.Budgets
