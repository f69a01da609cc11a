import Vivac.Access.Accounts
import Vivac.Access.Callers
import Vivac.Access.HiddenExistence
import Vivac.Access.Portal
import Vivac.Access.PublicExposure
import Vivac.Access.RateLimits
import Vivac.Access.ReadingChecks
import Vivac.Access.Tokens
import Vivac.Audit.History
import Vivac.Audit.Triggers
import Vivac.Core.Cache
import Vivac.Core.CacheKeys
import Vivac.Core.Contracts
import Vivac.Core.Errors
import Vivac.Core.Geo
import Vivac.Core.Limits
import Vivac.Core.Region
import Vivac.Core.SampleBackend
import Vivac.Core.Security
import Vivac.Core.Session
import Vivac.Core.WsManager
import Vivac.Creation.OneRowPerKey
import Vivac.Crud.AdminLists
import Vivac.Crud.Conversation
import Vivac.Crud.CursorDecoding
import Vivac.Crud.Invite
import Vivac.Crud.Message
import Vivac.Crud.Spot
import Vivac.Crud.SpotFieldOption
import Vivac.Crud.SpotGroup
import Vivac.Crud.SpotImage
import Vivac.Crud.SpotQueries
import Vivac.Crud.SpotReview
import Vivac.Crud.User
import Vivac.Endpoints.AdminAuth
import Vivac.Endpoints.Auth
import Vivac.Endpoints.Conversations
import Vivac.Endpoints.Explore
import Vivac.Endpoints.GroupLists
import Vivac.Endpoints.ImageStorage
import Vivac.Endpoints.InternalSpotGroups
import Vivac.Endpoints.InternalSpots
import Vivac.Endpoints.Invites
import Vivac.Endpoints.PublicLists
import Vivac.Endpoints.SpotContent
import Vivac.Endpoints.SpotGroups
import Vivac.Endpoints.UserBlocks
import Vivac.Freshness.BulkJob
import Vivac.Freshness.CacheInvariant
import Vivac.Freshness.FailOpen
import Vivac.Freshness.JobFreshness
import Vivac.Freshness.PublicCache
import Vivac.Freshness.Readers
import Vivac.Freshness.ReviewCalls
import Vivac.Freshness.SearchPages
import Vivac.Freshness.Writers
import Vivac.Groups.Acceptances
import Vivac.Groups.Acts
import Vivac.Groups.CallCommands
import Vivac.Groups.Calls
import Vivac.Groups.Governance
import Vivac.Groups.InviteRuns
import Vivac.Groups.LastOwner
import Vivac.Groups.LoneActs
import Vivac.Groups.OneShotInvites
import Vivac.Groups.SpotCounts
import Vivac.Images.CleanFailure
import Vivac.Images.Limits
import Vivac.Images.Registrations
import Vivac.Images.SingleUse
import Vivac.Images.Thumbnails
import Vivac.Images.UploadKeys
import Vivac.Jobs.AllOrNothing
import Vivac.Jobs.ErrorTexts
import Vivac.Jobs.FailureRecords
import Vivac.Jobs.JobRows
import Vivac.Jobs.OutcomeWork
import Vivac.Jobs.RecordedOutcome
import Vivac.Jobs.RowsInOrder
import Vivac.Jobs.RunOnce
import Vivac.Jobs.TerminalStates
import Vivac.Lib.Arrivals
import Vivac.Lib.Base64
import Vivac.Lib.Evaluation
import Vivac.Lib.EventLoop
import Vivac.Lib.Faults
import Vivac.Lib.FaultyPools
import Vivac.Lib.FixedWindows
import Vivac.Lib.Interleave
import Vivac.Lib.Json
import Vivac.Lib.KeyedUpserts
import Vivac.Lib.Keyset
import Vivac.Lib.LocalKnowledge
import Vivac.Lib.LoneRuns
import Vivac.Lib.LoneSession
import Vivac.Lib.Mishaps
import Vivac.Lib.MovedRow
import Vivac.Lib.ObjectStore
import Vivac.Lib.OffsetPages
import Vivac.Lib.Outages
import Vivac.Lib.OwnCommits
import Vivac.Lib.PartialUpdates
import Vivac.Lib.Patches
import Vivac.Lib.PendingWork
import Vivac.Lib.Platform
import Vivac.Lib.Processes
import Vivac.Lib.Program
import Vivac.Lib.PyText
import Vivac.Lib.PyValues
import Vivac.Lib.RelyGuarantee
import Vivac.Lib.RowLocks
import Vivac.Lib.Separators
import Vivac.Lib.SessionContract
import Vivac.Lib.SessionKnowledge
import Vivac.Lib.SessionRules
import Vivac.Lib.StepContract
import Vivac.Lib.Table
import Vivac.Lib.TextPatterns
import Vivac.Lib.Transitions
import Vivac.Lib.Turns
import Vivac.Lib.VersionChains
import Vivac.Loading.BodyLimit
import Vivac.Loading.Coordinates
import Vivac.Loading.FieldFrame
import Vivac.Loading.InfoMerges
import Vivac.Loading.InfoRepeats
import Vivac.Loading.JobRuns
import Vivac.Loading.RepeatedLoads
import Vivac.Loading.RowReplays
import Vivac.Loading.SpotMerges
import Vivac.Loading.SpotPayloads
import Vivac.Loading.SpotRepeats
import Vivac.Messaging.Acts
import Vivac.Messaging.Connections
import Vivac.Messaging.DirectMessages
import Vivac.Messaging.DirectPairs
import Vivac.Messaging.UnreadCounts
import Vivac.Migrations.RatingScale
import Vivac.Models.Columns
import Vivac.Models.Database
import Vivac.Models.Records
import Vivac.Models.Schemas
import Vivac.Models.Spot
import Vivac.Pipeline.Assignments
import Vivac.Pipeline.Decay
import Vivac.Pipeline.DecayPacing
import Vivac.Pipeline.Publishing
import Vivac.Pipeline.SpotCalls
import Vivac.Pipeline.SpotRows
import Vivac.Pipeline.StaffTransitions
import Vivac.Pipeline.TimedCalls
import Vivac.Pipeline.WorkQueue
import Vivac.Reads.AdminPages
import Vivac.Reads.CursorScopes
import Vivac.Reads.KeyCollisions
import Vivac.Reads.KeyReadings
import Vivac.Reads.Pages
import Vivac.Reads.Pagination
import Vivac.Reads.ResultSet
import Vivac.Reviews.Aggregates
import Vivac.Reviews.ConcurrentReviews
import Vivac.Reviews.SerialRuns
import Vivac.Updates.DisjointColumns
import Vivac.Updates.PartialUpdates
import Vivac.Updates.RowUpdates
import Vivac.Workers.BulkRows
import Vivac.Workers.Instances
import Vivac.Workers.JobWorker
import Vivac.Workers.SpotBusinessInfoBulk
import Vivac.Workers.SpotsBulk
