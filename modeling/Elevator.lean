import Elevator.Transition.Run
import Elevator.Transition.Cells
import Elevator.Transition.Session
import Elevator.Sequence.Recent
import Elevator.Sequence.PointwiseSum
import Elevator.Sequence.ShortestSum
import Elevator.Sequence.Lines
import Elevator.Sequence.Scan
import Elevator.Sequence.Latest
import Elevator.Sequence.Histogram
import Elevator.Wire.Item
import Elevator.Wire.Exact
import Elevator.Ordered.Cut
import Elevator.Ordered.SearchTree
import Elevator.Cookie.Table
import Elevator.Cookie.Core
import Elevator.Cookie.Index
import Elevator.Cookie.Search
import Elevator.Cookie.Elements
import Elevator.Cookie.Variables
import Elevator.Cookie.Profile
import Elevator.Cookie.Semantics
import Elevator.Cookie.Enumeration
import Elevator.Cookie.Listing
import Elevator.Cookie.Equality
import Elevator.Cookie.Lifecycle
import Elevator.Cookie.Modified
import Elevator.Cookie.Allocation
import Elevator.Codec.Serialize
import Elevator.Codec.Deserialize
import Elevator.Codec.Trace
import Elevator.Codec.Calls
import Elevator.Codec.Encoding
import Elevator.Codec.Decoding
import Elevator.Codec.RoundTrip
import Elevator.Codec.Forward
import Elevator.Codec.Truncation
import Elevator.Codec.Layout
import Elevator.Codec.Rejection
import Elevator.Codec.Ambiguity
import Elevator.Codec.Watch
import Elevator.Codec.Bounds
import Elevator.Codec.DirtyFlag
import Elevator.Codec.Failure
import Elevator.Codec.Size
import Elevator.Store.InMemory
import Elevator.Store.Retrieval
import Elevator.Store.Couchbase
import Elevator.Store.Site
import Elevator.Store.Engines
import Elevator.Store.Batch
import Elevator.Store.Verdict
import Elevator.Harness.EvarLoop
import Elevator.Harness.Replay
import Elevator.Harness.HitBody
import Elevator.Harness.Worker
import Elevator.Harness.Sessions
import Elevator.Harness.Threads
import Elevator.Harness.System
import Elevator.Harness.Fleet
import Elevator.Harness.Aggregation
import Elevator.Harness.Clock
import Elevator.Harness.RateControl
import Elevator.Harness.Pacing
import Elevator.Harness.RateMonitor
import Elevator.Harness.HiResTimer
import Elevator.Harness.TimedLoop
import Elevator.Harness.TimerReport
import Elevator.Report.Clients
import Elevator.Report.Alignment
import Elevator.Report.HashOrder
import Elevator.Report.Script
import Elevator.Report.Summary
import Elevator.Report.Transcript
import Elevator.Report.Bookings
import Elevator.Report.Pipeline
import Elevator.Report.Rows
