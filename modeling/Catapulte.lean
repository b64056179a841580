import Catapulte.Routing
import Catapulte.Atomicity
import Catapulte.Leases
import Catapulte.Quota
import Catapulte.Promise
import Catapulte.Conservation
import Catapulte.Durability
import Catapulte.Retries
import Catapulte.Consumption
import Catapulte.Queue.Payload
import Catapulte.Storage.Columns
import Catapulte.Status
import Catapulte.Allowlist
import Catapulte.Submissions
import Catapulte.Drain
import Catapulte.Batches
import Catapulte.Limits
import Catapulte.Timestamps
import Catapulte.Storage.Query
import Catapulte.Fs.Store
import Catapulte.Fetching
import Catapulte.Rendering
import Catapulte.Addressing
import Catapulte.Domain.ListSenders
import Catapulte.Queue.TraceContext
import Catapulte.Storage.Filters
import Catapulte.Repeats
import Catapulte.LeaseRules
import Catapulte.WorkerProtocol
import Catapulte.Provenance
import Catapulte.Lifecycle
import Catapulte.Completion
import Catapulte.Feed
import Catapulte.Intake
import Catapulte.Announcements
import Catapulte.Fidelity
