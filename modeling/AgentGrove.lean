import AgentGrove.Coop.Protocol
import AgentGrove.Model.Server
import AgentGrove.Coop.Frame
import AgentGrove.Proofs.Quiet
import AgentGrove.Routing.Roles
import AgentGrove.Routing.Walk
import AgentGrove.Coop.Census
import AgentGrove.Routing.Flag
import AgentGrove.Routing.OneTurn
import AgentGrove.Routing.Release
import AgentGrove.Routing.Busy
import AgentGrove.Routing.Backlog
import AgentGrove.Transfer.Hands
import AgentGrove.Transfer.Walk
import AgentGrove.Transfer.Carried
import AgentGrove.Transfer.Owned
import AgentGrove.Transfer.Orphans
import AgentGrove.Proofs.Aside
import AgentGrove.Transfer.Ledger
import AgentGrove.Transfer.Messages
import AgentGrove.Transfer.Recovery
import AgentGrove.Coop.Budget
import AgentGrove.Coop.Endless
import AgentGrove.Draining.Pending
import AgentGrove.Draining.Pace
import AgentGrove.Draining.Walk
import AgentGrove.Draining.Spawns
import AgentGrove.Draining.Ends
import AgentGrove.Coop.Broadcast
import AgentGrove.Coop.Machine
import AgentGrove.Model.Socket
import AgentGrove.Streaming.Delivery
import AgentGrove.Streaming.Resync
import AgentGrove.Model.ChatStream
import AgentGrove.Streaming.Bubble
import AgentGrove.Streaming.Reconnect
import AgentGrove.Durable.Effects
import AgentGrove.Durable.Filing
import AgentGrove.Durable.Durability
import AgentGrove.Updates.Calls
import AgentGrove.Updates.Linear
import AgentGrove.Coop.Serial
import AgentGrove.Coop.Trace
import AgentGrove.Turns.Paths
import AgentGrove.Turns.Agreement
import AgentGrove.Proofs.Course
import AgentGrove.Prompts.Walk
import AgentGrove.Prompts.Isolation
import AgentGrove.Prompts.Identity
import AgentGrove.Sessions.Voices
import AgentGrove.Sessions.Walk
import AgentGrove.Sessions.Announced
import AgentGrove.Turns.Coalescing
import AgentGrove.Turns.Endings
import AgentGrove.Turns.OwnPrompt
import AgentGrove.Model.Terminal
import AgentGrove.Streaming.Terminal
import AgentGrove.Model.ClickUp
import AgentGrove.Tickets.Coherence
import AgentGrove.Model.Schedules
import AgentGrove.Schedules.Edits
import AgentGrove.Model.Worktrees
import AgentGrove.Model.ChatVerbs
import AgentGrove.Worktrees.Lifecycle
import AgentGrove.Timeline.Sound
import AgentGrove.Timeline.Distinct
import AgentGrove.Timeline.Belonging
import AgentGrove.Coop.Segment
import AgentGrove.Timeline.Contiguous
import AgentGrove.Coop.Digest
import AgentGrove.Logs.Server
import AgentGrove.Logs.Client
import AgentGrove.Timeline.Pages
import AgentGrove.Coop.Ranking
import AgentGrove.Queue.Order
import AgentGrove.Queue.Positions
import AgentGrove.Streaming.Reply
import AgentGrove.Turns.Calls
import AgentGrove.Turns.Staleness
import AgentGrove.Coop.Handover
import AgentGrove.Turns.Context
import AgentGrove.Turns.Handed
import AgentGrove.Coop.Service
import AgentGrove.Coop.Relay
import AgentGrove.Transfer.Editors
import AgentGrove.Transfer.Honoured
import AgentGrove.Restart.Mirror
import AgentGrove.Restart.Walk
import AgentGrove.Streaming.Polling
import AgentGrove.Streaming.Exit
import AgentGrove.Model.Agents
import AgentGrove.Model.Providers
import AgentGrove.Translating.Deltas
import AgentGrove.Translating.Tools
import AgentGrove.Translating.Closings
import AgentGrove.Translating.Contents
import AgentGrove.Wire.Getopt
import AgentGrove.Model.Arguments
import AgentGrove.Spawning.Delivery
import AgentGrove.Model.ModelsCache
import AgentGrove.Caching.Invalidation
import AgentGrove.Wire.Tables
import AgentGrove.Wire.Utf8
import AgentGrove.Model.WorkTree
import AgentGrove.Schedules.Cadence
import AgentGrove.Schedules.OneTime
import AgentGrove.Schedules.Patches
import AgentGrove.Coop.Upholds
import AgentGrove.Schedules.Arithmetic
import AgentGrove.Queue.Foreign
import AgentGrove.Queue.Fence
import AgentGrove.Restart.Turns
import AgentGrove.Restart.Handlers
import AgentGrove.Restart.Chats
import AgentGrove.Restart.Coherence
import AgentGrove.Git.StatusParsing
import AgentGrove.Git.Discarding
import AgentGrove.Model.WorktreeRestore
import AgentGrove.Git.Restoring
import AgentGrove.Model.BaseBranch
import AgentGrove.Git.Merging
import AgentGrove.Git.Drifting
import AgentGrove.Wire.SqlText
import AgentGrove.Model.Db
import AgentGrove.Database.Placeholders
import AgentGrove.Model.Uploads
import AgentGrove.Uploading.Names
import AgentGrove.Uploading.RoundTrip
import AgentGrove.Wire.Value
import AgentGrove.Wire.Paths
import AgentGrove.Model.Scratchpad
import AgentGrove.Notes.Isolation
import AgentGrove.Model.Secrets
import AgentGrove.Secrets.Truth
import AgentGrove.Model.Tickets
import AgentGrove.Tickets.Feed
import AgentGrove.Tickets.Worktrees
import AgentGrove.Wire.Search
import AgentGrove.Model.Attachments
import AgentGrove.Uploading.Attachments
import AgentGrove.Model.NotesTodo
import AgentGrove.Notes.Todo
import AgentGrove.Model.AppStore
import AgentGrove.Proofs.Basic
import AgentGrove.Tabs.Scopes
import AgentGrove.Tabs.Chats
import AgentGrove.Tabs.Invariant
import AgentGrove.Wire.Url
import AgentGrove.Model.RouteSync
import AgentGrove.Tabs.Addresses
import AgentGrove.Database.Pane
import AgentGrove.Tickets.Slugs
import AgentGrove.Model.CrossInstanceSync
import AgentGrove.Syncing.Convergence
import AgentGrove.Model.ChatCache
import AgentGrove.Restart.Index
import AgentGrove.Restart.Ghosts
import AgentGrove.Restart.Steps
import AgentGrove.Wire.Cookies
import AgentGrove.Model.Auth
import AgentGrove.Auth.Gate
import AgentGrove.Auth.Sessions
import AgentGrove.Auth.Redirects
import AgentGrove.Wire.Digits
import AgentGrove.Model.Backups
import AgentGrove.Backups.Retention
import AgentGrove.Backups.Restoring
import AgentGrove.Model.Editor
import AgentGrove.Editing.Autosave
import AgentGrove.Model.Export
import AgentGrove.Timeline.Export
import AgentGrove.Model.Projects
import AgentGrove.Projects.Deletion
import AgentGrove.Model.Layout
import AgentGrove.Tabs.Acts
import AgentGrove.Tabs.Restoring
import AgentGrove.Coop.Falls
import AgentGrove.Model.ActiveChats
import AgentGrove.Notifying.Finishes
