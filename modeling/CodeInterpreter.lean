import CodeInterpreter.Async.Program
import CodeInterpreter.Async.System
import CodeInterpreter.Async.Protocol
import CodeInterpreter.Async.Loop
import CodeInterpreter.Async.Machine
import CodeInterpreter.Python.Value
import CodeInterpreter.Python.Text
import CodeInterpreter.Python.Double
import CodeInterpreter.Js.Clock
import CodeInterpreter.Python.Path
import CodeInterpreter.Types
import CodeInterpreter.Redis
import CodeInterpreter.Api.Breaker
import CodeInterpreter.Api.Routes
import CodeInterpreter.Worker.Daemon
import CodeInterpreter.System
import CodeInterpreter.Redis.Effects
import CodeInterpreter.Discipline
import CodeInterpreter.Worker.Kept
import CodeInterpreter.Api.Kept
import CodeInterpreter.Invariants.Submissions
import CodeInterpreter.Invariants.Deliveries
import CodeInterpreter.Invariants.Reports
import CodeInterpreter.Queue.NoLostJob
import CodeInterpreter.Queue.Unfinished
import CodeInterpreter.Records.Ownership
import CodeInterpreter.Queue.DeliveryCount
import CodeInterpreter.Records.Provenance
import CodeInterpreter.Queue.Settled
import CodeInterpreter.Records.Cancellation
import CodeInterpreter.Quota
import CodeInterpreter.Records.Writes
import CodeInterpreter.Records.Terminal
import CodeInterpreter.Records.Agreement
import CodeInterpreter.Records.Expiry
import CodeInterpreter.Executor.Runtime
import CodeInterpreter.Executor.Sandbox
import CodeInterpreter.Executor.Completed
import CodeInterpreter.Worker.ResultSurvives
import CodeInterpreter.Worker.Pool
import CodeInterpreter.Worker.Gauge
import CodeInterpreter.Worker.Lifecycle
import CodeInterpreter.Worker.Reclaim
import CodeInterpreter.Queue.Poison
import CodeInterpreter.Executor.Files
import CodeInterpreter.Executor.Tasks
import CodeInterpreter.Executor.Seccomp
import CodeInterpreter.Executor.Command
import CodeInterpreter.Executor.Output
import CodeInterpreter.Executor.Chunking
import CodeInterpreter.Executor.Materialise
import CodeInterpreter.Executor.Lifecycle
import CodeInterpreter.Executor.Cleanup
import CodeInterpreter.Executor.Reaper
import CodeInterpreter.Executor.Fleet
import CodeInterpreter.Api.Stream
import CodeInterpreter.Api.Frames
import CodeInterpreter.Api.Release
import CodeInterpreter.Api.RateLimiter
import CodeInterpreter.RateLimits
import CodeInterpreter.Api.Predictions
import CodeInterpreter.Api.Rejection
import CodeInterpreter.Js.Value
import CodeInterpreter.Api.Auth
import CodeInterpreter.Api.Jwt
import CodeInterpreter.Js.Json
import CodeInterpreter.Js.Encoding
import CodeInterpreter.Js.Object
import CodeInterpreter.Api.Sign
import CodeInterpreter.Js.Zod
import CodeInterpreter.Api.Validator
import CodeInterpreter.Api.Config
import CodeInterpreter.Accepted
import CodeInterpreter.Mounted
import CodeInterpreter.Filenames
import CodeInterpreter.Revalidation
import CodeInterpreter.Python.Dumps
import CodeInterpreter.Python.Portable
import CodeInterpreter.Records.Texts
import CodeInterpreter.Api.Messages
import CodeInterpreter.Api.Pipeline
