import CodeHive.Concurrency.Calls
import CodeHive.Concurrency.Pool
import CodeHive.Concurrency.RelyGuarantee
import CodeHive.Api.Types
import CodeHive.Api.Messages
import CodeHive.Api.Program
import CodeHive.Api.Queue
import CodeHive.Api.Executor
import CodeHive.Api.Routes
import CodeHive.Api.System
import CodeHive.Api.History
import CodeHive.Api.Invariant
import CodeHive.Api.Logic
import CodeHive.Api.ListLogic
import CodeHive.Api.Handlers
import CodeHive.Api.Records
import CodeHive.Api.Runs
import CodeHive.Api.ReadYourWrites
import CodeHive.Api.Dispatch
import CodeHive.Api.RecordState
import CodeHive.Api.Conservation
import CodeHive.Api.Acknowledged
import CodeHive.Concurrency.Solo
import CodeHive.Api.SameStore
import CodeHive.Api.Listing
import CodeHive.Concurrency.Triples
import CodeHive.Api.Clients
import CodeHive.Api.InlineOutcome
import CodeHive.Api.LostUpdate
import CodeHive.Api.Paging
import CodeHive.Api.Claiming
import CodeHive.Concurrency.Interleaving
import CodeHive.Go.Sync
import CodeHive.Orchestrator.Runner
import CodeHive.Lists.Slots
import CodeHive.Orchestrator.JobFlow
import CodeHive.Orchestrator.Outcomes
import CodeHive.Orchestrator.Conservation
import CodeHive.Orchestrator.ApiServer
import CodeHive.Orchestrator.Submissions
import CodeHive.Orchestrator.StatusAnswers
import CodeHive.Orchestrator.FinalResults
import CodeHive.Go.Fmt
import CodeHive.Orchestrator.Identity
import CodeHive.Orchestrator.UnknownJobs
import CodeHive.Rust.Serde
import CodeHive.Worker.Types
import CodeHive.Go.Json
import CodeHive.Orchestrator.WorkerApi
import CodeHive.Api.Wire
import CodeHive.Orchestrator.Wire
import CodeHive.Os.Process
import CodeHive.Worker.Sandbox
import CodeHive.Worker.Success
import CodeHive.Worker.Timers
import CodeHive.Worker.Main
import CodeHive.Worker.Accounting
import CodeHive.Worker.Handover
import CodeHive.Orchestrator.Pulled
import CodeHive.Api.Workers
import CodeHive.Api.Process
import CodeHive.Orchestrator.Executors
import CodeHive.Executors.Classification
import CodeHive.Executors.Programs
import CodeHive.Api.Views
import CodeHive.Api.LiveFeed
import CodeHive.Executors.Inline
import CodeHive.Worker.Milestones
import CodeHive.Worker.Judging
import CodeHive.Api.ChildEvents
import CodeHive.Api.TerminalRecords
import CodeHive.Api.Handling
import CodeHive.Api.ShownJobs
import CodeHive.Api.MemoryPages
import CodeHive.Js.Timestamps
import CodeHive.Api.NewestFirst
import CodeHive.Api.PageCap
import CodeHive.Go.Strings
import CodeHive.Orchestrator.WorkerRoutes
import CodeHive.Orchestrator.Timeouts
import CodeHive.Orchestrator.WorkerCounts
import CodeHive.Orchestrator.Snapshots
import CodeHive.Orchestrator.WorkerIds
import CodeHive.Api.FanOut
import CodeHive.Dashboard.Stores
import CodeHive.Api.Auth
import CodeHive.Api.Statistics
import CodeHive.Dashboard.Executions
import CodeHive.Dashboard.Served
import CodeHive.Concurrency.Settling
import CodeHive.Orchestrator.Progress
import CodeHive.Orchestrator.Completion
import CodeHive.Go.Durations
import CodeHive.Orchestrator.Database
import CodeHive.Orchestrator.Restarts
import CodeHive.Orchestrator.Cli
import CodeHive.Dashboard.LiveConnection
import CodeHive.Worker.HeartbeatWire
import CodeHive.Concurrency.Protocols
import CodeHive.Concurrency.Resting
import CodeHive.Api.Course
import CodeHive.Api.Directories
import CodeHive.Api.Quiescence
import CodeHive.Api.RedisRestarts
import CodeHive.Dashboard.LeftAlone
import CodeHive.Api.OneExecution
import CodeHive.Api.FinalAnswers
import CodeHive.Worker.Fleet
