import Portal.Error
import Portal.Base.OrdMap
import Portal.Base.Machine
import Portal.Base.Calendar
import Portal.Base.Text
import Portal.Base.DateTime
import Portal.RunQueue.Cron
import Portal.Base.Json
import Portal.RunQueue.Clock
import Portal.RunQueue.Entry
import Portal.RunQueue.Queue
import Portal.RunQueue.Entries
import Portal.RunQueue.Tick
import Portal.RunQueue.Lanes
import Portal.RunQueue.Held
import Portal.RunQueue.Change
import Portal.RunQueue.Lifecycle
import Portal.Base.Window
import Portal.RunQueue.Retries
import Portal.RunQueue.LastRun
import Portal.RunQueue.NextDue
import Portal.Deployer.Handover
import Portal.Base.Document
import Portal.Plan.Merge
import Portal.Resource.Filter
import Portal.Resource.Print
import Portal.SourceDeletes.Ledger
import Portal.SourceDeletes.Judging
import Portal.SourceDeletes.Deletes
import Portal.SourceDeletes.Marks
import Portal.Store.Mirror
import Portal.Deployer.Sources
import Portal.Quotas.Counts
import Portal.Deployer.Placement
import Portal.Quotas.Check
import Portal.Deployer.Orphans
import Portal.Deployer.Sender
import Portal.Deployer.Backoff
import Portal.Base.Keyset
import Portal.Resource.Order
import Portal.Resource.Listing
import Portal.Access.Effective
import Portal.Access.Administrators
import Portal.Access.Bindings
import Portal.Access.Tenants
import Portal.Changes.Lane
import Portal.Changes.Request
import Portal.Base.Gate
import Portal.Base.ThreeWay
import Portal.Changes.Approval
import Portal.Changes.Removals
import Portal.Changes.Shown
import Portal.Changes.SecondPerson
import Portal.Changes.Merging
import Portal.Changes.Turns
import Portal.Workspaces.Compare
import Portal.Workspaces.Update
import Portal.Workspaces.Propose
import Portal.Spaces.Move
import Portal.Spaces.Moved
import Portal.Spaces.Undone
import Portal.Connectors.Grant
import Portal.Connectors.Ceiling
import Portal.Plans.Store
import Portal.Plans.Apply
import Portal.Plans.Whole
import Portal.Plans.Once
import Portal.Connectors.Above
import Portal.Connectors.Approvals
import Portal.Import.Rewrite
import Portal.Import.Bundle
import Portal.Import.Plan
import Portal.Import.Filed
import Portal.Import.Names
import Portal.Import.Frame
import Portal.Base.JsonText
import Portal.Verdicts.Digest
import Portal.Verdicts.Drafts
import Portal.Verdicts.Checks
import Portal.Verdicts.Edits
import Portal.AccessRequests.Names
import Portal.AccessRequests.Decisions
import Portal.Sync.Forge
import Portal.Sync.Proposal
import Portal.Sync.Driver
import Portal.Sync.Paused
import Portal.Sync.OneOpen
import Portal.Sync.Branch
import Portal.Sync.Carried
import Portal.Plan.Patch
import Portal.Plan.Diff
import Portal.Plan.Emptied
import Portal.Alerts.Pass
import Portal.Changes.Provenance
import Portal.Alerts.Bookkeeping
import Portal.Alerts.Announced
import Portal.Alerts.Digests
import Portal.RunQueue.ClockWords
import Portal.RunQueue.Order
import Portal.Quotas.Tenancy
import Portal.Base.Sorting
import Portal.Resource.Compare
import Portal.Resource.Nesting
import Portal.Resource.Total
import Portal.Resource.Cursor
import Portal.Base.Js
import Portal.Base.Sha256
import Portal.Verdicts.Sha256
import Portal.Access.Reading
import Portal.Access.People
import Portal.AccessRequests.Already
import Portal.Base.Substitution
import Portal.Import.Mapped
import Portal.Resource.Selector
import Portal.Resource.Spelling
import Portal.Agents.Patch
import Portal.Agents.Runs
import Portal.Agents.Stream
import Portal.Mcp.Elicitation
import Portal.Mcp.Tasks
import Portal.Erasures.Log
import Portal.Reconciler.Leader
import Portal.Changes.Branches
import Portal.Pipelines.Masking
import Portal.Reconciler.Stall
import Portal.Reconciler.Transitions
import Portal.Pipelines.Log
import Portal.Pipelines.RunLog
import Portal.Pipelines.Created
import Portal.Pipelines.Expiry
import Portal.Base.Processors
import Portal.Pipelines.Sweep
import Portal.Secrets.Masked
import Portal.Base.Alike
import Portal.Changes.Redacted
import Portal.Store.Paged
import Portal.Reconciler.Groups
import Portal.Reconciler.GroupRuns
import Portal.Base.Recency
import Portal.Store.Cache
import Portal.Health.Log
import Portal.Reconciler.Live
