import Conduit.Flight.Exclusion
import Conduit.Flight.Completion
import Conduit.Flight.Waking
import Conduit.Pipeline.Pinning
import Conduit.Pipeline.Bounds
import Conduit.Pipeline.Answers
import Conduit.Pipeline.Rcode
import Conduit.Config.RoundTrip
import Conduit.Slots.Callers
import Conduit.SplitIo.Permits
import Conduit.SplitIo.Routes
import Conduit.SplitIo.Demux
import Conduit.Health.Control
import Conduit.Health.Passive
import Conduit.Cache.Reconcile
import Conduit.Acl.Gate
import Conduit.Pipeline.Ledger
import Conduit.Metrics.Sync
import Conduit.Ingress.Trace
import Conduit.Config.Survival
import Conduit.Cache.Durability
import Conduit.Cache.Capacity
import Conduit.Config.Accumulate
import Conduit.Core.Fit
import Conduit.Cache.Negative
import Conduit.Health.Scheduler
import Conduit.Core.ScriptRun
import Conduit.Events.Queue
import Conduit.Metrics.Otel
