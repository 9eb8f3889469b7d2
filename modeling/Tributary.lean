import Tributary.Aggregation.Basic
import Tributary.Aggregation.Entries
import Tributary.Aggregation.Scalar
import Tributary.Aggregation.Settings
import Tributary.Backoff
import Tributary.Config
import Tributary.Debouncer
import Tributary.Decimal.Double
import Tributary.Decimal.Shortest
import Tributary.Diff.Compact
import Tributary.Diff.Script
import Tributary.Diff.Shortest
import Tributary.Diff.Unified
import Tributary.Digest.Sha256
import Tributary.Downstream
import Tributary.Host.Basic
import Tributary.Host.Config
import Tributary.Host.Dispatcher
import Tributary.Host.Start
import Tributary.Json.Fingerprint
import Tributary.Json.Text
import Tributary.Json.Token
import Tributary.Json.Tree
import Tributary.Json.Value
import Tributary.Marker
import Tributary.Owner
import Tributary.Pass
import Tributary.Paths
import Tributary.Pending
import Tributary.Preview
import Tributary.Program
import Tributary.Readable
import Tributary.Record.Basic
import Tributary.Record.Codec
import Tributary.Record.Document
import Tributary.Record.Phase
import Tributary.Registry
import Tributary.Rehearsal.Kinds
import Tributary.Rehearsal.Quiet
import Tributary.Rehearsal.Scene
import Tributary.Rehearsal.Stage
import Tributary.Rehearsal.Strategies
import Tributary.Rehearsal.World
import Tributary.Store.Call
import Tributary.Store.Directory
import Tributary.Store.Error
import Tributary.Store.Folder
import Tributary.Store.Memory
import Tributary.SyncError
import Tributary.Table
import Tributary.Text.Blank
import Tributary.Text.Search
import Tributary.Time.Calendar
import Tributary.Time.Instant
import Tributary.Time.Rfc3339
import Tributary.Time.Timeline
import Tributary.Update
import Tributary.Yaml.Cursor
import Tributary.Yaml.Lexer
import Tributary.Yaml.Node
import Tributary.Yaml.Place
import Tributary.Yaml.Plain
import Tributary.Yaml.Scalar
import Tributary.Yaml.Token
import Tributary.Yaml.Writer
import Tributary.Proofs.Aftermath
import Tributary.Proofs.Alarms
import Tributary.Proofs.Amendments
import Tributary.Proofs.Coherence
import Tributary.Proofs.Commits
import Tributary.Proofs.Company
import Tributary.Proofs.Contributions
import Tributary.Proofs.Copy
import Tributary.Proofs.Crew
import Tributary.Proofs.Debouncing
import Tributary.Proofs.HeldBack
import Tributary.Proofs.Hosting
import Tributary.Proofs.Identities
import Tributary.Proofs.Leaving
import Tributary.Proofs.Outcomes
import Tributary.Proofs.Placeholders
import Tributary.Proofs.Pushes
import Tributary.Proofs.Replies
import Tributary.Proofs.Rest
import Tributary.Proofs.Shutdown
import Tributary.Proofs.Skips
import Tributary.Proofs.Undisturbed
import Tributary.Proofs.Vouching
import Tributary.Proofs.Wakeups
import Tributary.Proofs.Spelling
import Tributary.Proofs.Fingerprints
import Tributary.Proofs.Instants
import Tributary.Proofs.Restoring
import Tributary.Proofs.Filing
import Tributary.Proofs.Restarts
import Tributary.Proofs.Incarnations
import Tributary.Proofs.Twins
import Tributary.Proofs.Precedence
import Tributary.Proofs.Errands
import Tributary.Proofs.Foretelling
import Tributary.Proofs.Revivals
import Tributary.Proofs.Crashes
import Tributary.Proofs.Rankings
import Tributary.Proofs.Ownership
import Tributary.Proofs.Winners
import Tributary.Proofs.Departures
import Tributary.Proofs.Retries
import Tributary.Proofs.Recognition
import Tributary.Proofs.Stripping
import Tributary.Proofs.StatusCodes
import Tributary.Proofs.Merges
import Tributary.Proofs.Condemnations
import Tributary.Proofs.Limits
import Tributary.Proofs.Differences
import Tributary.Proofs.Layouts
import Tributary.Proofs.Previews
import Tributary.Proofs.Staffing
import Tributary.Proofs.Counters
