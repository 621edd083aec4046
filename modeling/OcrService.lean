import OcrService.Lib.Rows
import OcrService.Pipeline.Final
import OcrService.Worker.SilentDrop
import OcrService.Worker.RetryRun
import OcrService.System.InFlight
import OcrService.System.Transactions
import OcrService.System.PinnedContract
import OcrService.System.Cancelled
import OcrService.System.RetryOnce
import OcrService.System.Erased
import OcrService.System.ForeignErasure
import OcrService.System.AtRest
import OcrService.Pipeline.Middle
import OcrService.Worker.Outcome
import OcrService.System.Stopped
import OcrService.System.Tombstones
import OcrService.System.ExternalCopies
import OcrService.System.Resurrection
import OcrService.System.Decisions
import OcrService.Db.Letters
import OcrService.System.Turns
import OcrService.System.DeadLetters
import OcrService.Domain.CircuitBreaker
import OcrService.Lib.Show
import OcrService.Services.Qdrant
import OcrService.Services.VectorStore
import OcrService.Worker.Deliver
import OcrService.System.FailedIngest
import OcrService.System.StatusMoves
import OcrService.System.AuditTrail
import OcrService.System.Completions
import OcrService.System.NoTrace
import OcrService.System.Posts
import OcrService.Lib.Window
import OcrService.Domain.SlidingWindow
import OcrService.Lib.Semaphore
import OcrService.Worker.WorkerPool
import OcrService.System.Seeds
import OcrService.System.Activation
import OcrService.Lib.TtlCache
import OcrService.Services.Auth
import OcrService.Services.KeyCache
import OcrService.Lib.Base64
import OcrService.Lib.JsonPaths
import OcrService.Domain.Decryption
import OcrService.Domain.RoundTrip
import OcrService.Domain.ClearText
import OcrService.Pipeline.Required
import OcrService.Pipeline.Scores
import OcrService.Worker.Thresholds
import OcrService.Pipeline.Extraction
import OcrService.Pipeline.OutputModel
import OcrService.Pipeline.Replay
import OcrService.Pipeline.Blanks
import OcrService.Pipeline.Provenance
import OcrService.Domain.Webhook
import OcrService.Lib.Attempts
import OcrService.Services.WebhookDeliverer
import OcrService.Pipeline.Parsers
import OcrService.Lib.Regex
import OcrService.Lib.Files
import OcrService.Observability.PiiFilter
import OcrService.Domain.Storage
import OcrService.Lib.Canonical
import OcrService.Domain.SignedPayload
import OcrService.Worker.NulFree
import OcrService.Db.Owners
import OcrService.System.Ownership
import OcrService.System.Isolation
import OcrService.Lib.Versions
import OcrService.System.LostUpdates
import OcrService.Lib.Fair
import OcrService.System.Rest
import OcrService.System.Accounts
import OcrService.System.Evidence
import OcrService.System.Snapshots
import OcrService.System.Disk
import OcrService.System.Redrive
import OcrService.Worker.TenantPools
import OcrService.Domain.Injection
import OcrService.System.Screening
import OcrService.Api.AuditExport
