import OpencodeCloud.Library.Base64
import OpencodeCloud.Library.Chains
import OpencodeCloud.Library.Checks
import OpencodeCloud.Library.Counter
import OpencodeCloud.Library.Dict
import OpencodeCloud.Library.Entries
import OpencodeCloud.Library.Exchange
import OpencodeCloud.Library.FileTree
import OpencodeCloud.Library.Groups
import OpencodeCloud.Library.Ini
import OpencodeCloud.Library.Intervals
import OpencodeCloud.Library.Json
import OpencodeCloud.Library.JsonText
import OpencodeCloud.Library.Keys
import OpencodeCloud.Library.Largest
import OpencodeCloud.Library.Lines
import OpencodeCloud.Library.Linking
import OpencodeCloud.Library.Machine
import OpencodeCloud.Library.Naming
import OpencodeCloud.Library.Numbering
import OpencodeCloud.Library.Outline
import OpencodeCloud.Library.Recent
import OpencodeCloud.Library.Savepoint
import OpencodeCloud.Library.Sse
import OpencodeCloud.Library.Tally
import OpencodeCloud.Library.Text
import OpencodeCloud.Library.Throttle
import OpencodeCloud.Library.Uri
import OpencodeCloud.ApiGateway.Routing
import OpencodeCloud.Catalog.Agents
import OpencodeCloud.Catalog.Artifacts
import OpencodeCloud.Catalog.Authorize
import OpencodeCloud.Catalog.Availability
import OpencodeCloud.Catalog.Bindings
import OpencodeCloud.Catalog.Commits
import OpencodeCloud.Catalog.Compiler
import OpencodeCloud.Catalog.Document
import OpencodeCloud.Catalog.Editions
import OpencodeCloud.Catalog.Entries
import OpencodeCloud.Catalog.Histories
import OpencodeCloud.Catalog.ImportFormats
import OpencodeCloud.Catalog.Models
import OpencodeCloud.Catalog.Numbering
import OpencodeCloud.Catalog.References
import OpencodeCloud.Catalog.Release
import OpencodeCloud.Catalog.Releases
import OpencodeCloud.Catalog.Resources
import OpencodeCloud.Catalog.Secrets
import OpencodeCloud.Catalog.Service
import OpencodeCloud.Catalog.Transfers
import OpencodeCloud.Catalog.Unpacking
import OpencodeCloud.Catalog.Writes
import OpencodeCloud.Operations.Calls
import OpencodeCloud.Operations.Cancellation
import OpencodeCloud.Operations.Cleanups
import OpencodeCloud.Operations.Job
import OpencodeCloud.Operations.Lease
import OpencodeCloud.Operations.LoadTests
import OpencodeCloud.Operations.Pinning
import OpencodeCloud.Operations.Publications
import OpencodeCloud.Operations.Reconciler
import OpencodeCloud.Operations.Recovery
import OpencodeCloud.Operations.Steps
import OpencodeCloud.Operations.Store
import OpencodeCloud.Operations.Submissions
import OpencodeCloud.Operations.System
import OpencodeCloud.Operations.Tasks
import OpencodeCloud.Operations.Turns
import OpencodeCloud.Operations.Worker
import OpencodeCloud.Router.Admission
import OpencodeCloud.Router.Balance
import OpencodeCloud.Router.Drain
import OpencodeCloud.Router.Handler
import OpencodeCloud.Router.Ownership
import OpencodeCloud.Router.Recording
import OpencodeCloud.Router.Selection
import OpencodeCloud.Router.Spelling
import OpencodeCloud.Router.Streams
import OpencodeCloud.ModelGateway.Activation
import OpencodeCloud.ModelGateway.Inference
import OpencodeCloud.ModelGateway.State
import OpencodeCloud.Sandbox.Acquire
import OpencodeCloud.Sandbox.Budget
import OpencodeCloud.Sandbox.Bundle
import OpencodeCloud.Sandbox.Deletion
import OpencodeCloud.Sandbox.Docker
import OpencodeCloud.Sandbox.Eviction
import OpencodeCloud.Sandbox.Idle
import OpencodeCloud.Sandbox.Installation
import OpencodeCloud.Sandbox.Journal
import OpencodeCloud.Sandbox.Leases
import OpencodeCloud.Sandbox.Lifecycle
import OpencodeCloud.Sandbox.Mounts
import OpencodeCloud.Sandbox.Observation
import OpencodeCloud.Sandbox.Overrides
import OpencodeCloud.Sandbox.Registry
import OpencodeCloud.Sandbox.Removal
import OpencodeCloud.Sandbox.Staging
import OpencodeCloud.Sandbox.Steps
import OpencodeCloud.Platform.AgentFile
import OpencodeCloud.Platform.Blocks
import OpencodeCloud.Platform.Bundles
import OpencodeCloud.Platform.Capacity
import OpencodeCloud.Platform.Compensation
import OpencodeCloud.Platform.Configuration
import OpencodeCloud.Platform.Deletions
import OpencodeCloud.Platform.EventStream
import OpencodeCloud.Platform.Gateway
import OpencodeCloud.Platform.Headers
import OpencodeCloud.Platform.Manager
import OpencodeCloud.Platform.Provenance
import OpencodeCloud.Platform.Publishable
import OpencodeCloud.Platform.Steps
import OpencodeCloud.Platform.Stopping
import OpencodeCloud.Platform.System
import OpencodeCloud.Platform.Tasks
import OpencodeCloud.AdminWeb.Spans
import OpencodeCloud.AdminWeb.Thinking
import OpencodeCloud.AgentRuntime.PluginEvent
import OpencodeCloud.AgentRuntime.Reports
import OpencodeCloud.AgentRuntime.Supervisor
import OpencodeCloud.Config.Environment
import OpencodeCloud.FileService.Cleanup
import OpencodeCloud.FileService.Uploads
import OpencodeCloud.Observability.Aggregate
import OpencodeCloud.Observability.Calls
import OpencodeCloud.Observability.Query
import OpencodeCloud.Observability.Routes
import OpencodeCloud.Observability.Times
import OpencodeCloud.Observability.Tree
