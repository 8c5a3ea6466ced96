import WaveCast.Interaction.Program
import WaveCast.Interaction.History
import WaveCast.Interaction.Parts
import WaveCast.Interaction.Pool
import WaveCast.Interaction.Lease
import WaveCast.Interaction.Ensures
import WaveCast.Interaction.Lockstep
import WaveCast.Interaction.Steps
import WaveCast.Interaction.Twins
import WaveCast.Interaction.Tickets
import WaveCast.Interaction.Simulation
import WaveCast.Documents.Collection
import WaveCast.Intervals.Successions
import WaveCast.Rounding.Float64
import WaveCast.Platform
import WaveCast.Voice
import WaveCast.Contracts
import WaveCast.Memory
import WaveCast.Service
import WaveCast.Runs
import WaveCast.Protocol
import WaveCast.Candor
import WaveCast.Records
import WaveCast.Authority
import WaveCast.Provenance
import WaveCast.Lineage
import WaveCast.WellFormed
import WaveCast.Confinement
import WaveCast.MongoStore
import WaveCast.StoresAgree
import WaveCast.LostUpdates
import WaveCast.SpeakerRequests
import WaveCast.Results
import WaveCast.Sequential
import WaveCast.SessionChanges
import WaveCast.EndedSessions
import WaveCast.LiveListeners
import WaveCast.Moderation
import WaveCast.Finishing
import WaveCast.Refusals
import WaveCast.Alone
import WaveCast.Ledger
import WaveCast.Postings
import WaveCast.RecordingChanges
import WaveCast.Recordings
import WaveCast.PresenceAgreement
import WaveCast.Keyspace.Commands
import WaveCast.RedisPresence
import WaveCast.Cleanup
import WaveCast.Reports
import WaveCast.Rounds
import WaveCast.Closings
import WaveCast.Stage
import WaveCast.ClosedRooms
import WaveCast.Removals
import WaveCast.ListeningTime
import WaveCast.Cumulative
import WaveCast.Peak
import WaveCast.Overtime
import WaveCast.Expiry
import WaveCast.EventLog
import WaveCast.Attestation
import WaveCast.AuditLog
import WaveCast.SignedURLs
import WaveCast.Production
import WaveCast.Failures
import WaveCast.FailedCommands
import WaveCast.Async.Queue
import WaveCast.Async.Runner
import WaveCast.Async.Deliveries
import WaveCast.Async.Ownership
import WaveCast.Async.Attempts
import WaveCast.Async.Retries
import WaveCast.Async.RetryDelays
import WaveCast.Async.IdempotencyKeys
import WaveCast.Async.Redelivery
import WaveCast.Async.MongoJobs
import WaveCast.Registry
import WaveCast.RoomJobs
import WaveCast.Consumable
import WaveCast.Dispatcher
import WaveCast.CommittedPosition
import WaveCast.Realtime
import WaveCast.Channels
import WaveCast.Router
import WaveCast.Interaction.Gateway
import WaveCast.Api.Endpoints
import WaveCast.Api.Requests
import WaveCast.Api.InternalErrors
import WaveCast.Interaction.Linking
import WaveCast.Site
import WaveCast.SiteSafety
import WaveCast.SiteJobs
import WaveCast.SiteReports
import WaveCast.Playback
import WaveCast.Profiles
import WaveCast.Reducer.Runs
import WaveCast.Reducer.Polls
import WaveCast.Scanner.Matches
import WaveCast.Client.JavaScript
import WaveCast.Client.MockData
import WaveCast.Client.ChatMediaPreview
import WaveCast.Client.PrivateChats
import WaveCast.Client.Reactions
import WaveCast.Client.UnreadCounts
import WaveCast.Client.SpeakerStore
