import FraudDetection.Theorems.TypeSoundness
import FraudDetection.Theorems.Publish
import FraudDetection.Theorems.Versions
import FraudDetection.Theorems.Decisions
import FraudDetection.Lemmas.Cache
import FraudDetection.Theorems.Staleness
import FraudDetection.Theorems.Switch
import FraudDetection.Theorems.Tampering
import FraudDetection.Theorems.Parsing
import FraudDetection.Theorems.Timestamps
import FraudDetection.Theorems.Velocity
import FraudDetection.Theorems.Arithmetic
import FraudDetection.Theorems.Retry
import FraudDetection.Theorems.Paging
import FraudDetection.Theorems.Replay
import FraudDetection.Theorems.Traceability
import FraudDetection.Theorems.Delivery
import FraudDetection.Processing
import FraudDetection.Lemmas.Cursor
import FraudDetection.Theorems.Processing
import FraudDetection.Theorems.Outages
import FraudDetection.Batch
import FraudDetection.Lib.Windows
import FraudDetection.Theorems.Batch
import FraudDetection.Lib.FixedWindow
import FraudDetection.RateLimit
import FraudDetection.Theorems.RateLimit
import FraudDetection.Theorems.Rescoring
import FraudDetection.Theorems.CacheEntry
import FraudDetection.Security
import FraudDetection.Theorems.KeyRefresh
import FraudDetection.Theorems.Authentication
import FraudDetection.Lib.Watermark
import FraudDetection.Theorems.Backpressure
import FraudDetection.DryRun
import FraudDetection.Lemmas.SameNumber
import FraudDetection.Lemmas.ScoresAlike
import FraudDetection.Theorems.DryRun
import FraudDetection.Observability
import FraudDetection.Theorems.Redaction
import FraudDetection.Theorems.CorrelationIds
import FraudDetection.Theorems.VersionPages
import FraudDetection.DefaultRules
import FraudDetection.Lib.DecimalRange
import FraudDetection.Theorems.DefaultRules
import FraudDetection.Lib.IsoFormat
import FraudDetection.Lib.HexText
import FraudDetection.Theorems.Cursors
import FraudDetection.DecisionStore
import FraudDetection.Lib.Simulation
import FraudDetection.Theorems.Linearizability
import FraudDetection.Theorems.Handover
import FraudDetection.Theorems.Halting
import FraudDetection.Theorems.SigningKeys
import FraudDetection.Api
import FraudDetection.Lemmas.Api
import FraudDetection.Serving
import FraudDetection.Lemmas.Serving
import FraudDetection.Theorems.Serving
import FraudDetection.Theorems.EditedRows
