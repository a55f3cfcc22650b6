import TigerDuck.Relational.LastWriter
import TigerDuck.Relational.Table
import TigerDuck.Transition.Run
import TigerDuck.Sync.Membership
import TigerDuck.Sync.Courses
import TigerDuck.Sync.Uploads
import TigerDuck.Sync.Requests
import TigerDuck.Sync.Overrides
import TigerDuck.Sync.InitialUpload
import TigerDuck.Sync.HiddenCourses
import TigerDuck.Sync.ResetFinality
import TigerDuck.Sync.OverrideConvergence
import TigerDuck.Sync.Marks
import TigerDuck.Sync.StampBounds
import TigerDuck.Sync.Convergence
import TigerDuck.Sync.Changelog
import TigerDuck.Sync.ChangelogPaging
import TigerDuck.SyncJobs.Assignments
import TigerDuck.SyncJobs.Executor
import TigerDuck.SyncJobs.FreshCredential
import TigerDuck.SyncJobs.ClaimHolder
import TigerDuck.Push.Jobs
import TigerDuck.Push.Pipeline
import TigerDuck.Push.SentJobs
import TigerDuck.Auth.Sessions
import TigerDuck.Auth.Requests
import TigerDuck.Auth.Contests
import TigerDuck.Auth.Rings
import TigerDuck.Auth.Frames
import TigerDuck.Auth.Locks
import TigerDuck.Auth.SingleWinner
import TigerDuck.Auth.Effects
import TigerDuck.Auth.Logout
import TigerDuck.Auth.DeviceRemoval
import TigerDuck.Auth.HonestClient
import TigerDuck.Push.Deliveries
import TigerDuck.Push.Rounds
import TigerDuck.Push.DeliveryStates
import TigerDuck.Push.SyncTriggers
import TigerDuck.Push.TriggerCoverage
import TigerDuck.SyncJobs.JobStates
import TigerDuck.SyncJobs.AssignmentUploads
import TigerDuck.Bulletins.Processing
import TigerDuck.Bulletins.Exclusive
import TigerDuck.Devices.PushTokens
import TigerDuck.Devices.TokenOwners
import TigerDuck.Devices.Registrations
import TigerDuck.TlsPins.PinSets
import TigerDuck.TlsPins.Publication
import TigerDuck.AcademicCalendar.Days
import TigerDuck.AcademicCalendar.CourseChanges
import TigerDuck.AcademicCalendar.OneChange
import TigerDuck.SyncJobs.AssignmentMirror
import TigerDuck.SyncJobs.RefusedCourses
import TigerDuck.Sync.FetchMirror
import TigerDuck.SyncJobs.ExtensionDates
import TigerDuck.SyncJobs.RowIds
import TigerDuck.Sync.MarkClears
import TigerDuck.Push.Presend
import TigerDuck.Push.FirstDeliveries
import TigerDuck.Push.ReminderScan
import TigerDuck.Push.ScanExact
import TigerDuck.Bulletins.States
import TigerDuck.Bulletins.Subscriptions
import TigerDuck.Bulletins.Revisions
import TigerDuck.Bulletins.RuleLists
import TigerDuck.Push.ScheduleSync
import TigerDuck.Push.ClassMeetings
import TigerDuck.Push.Timetable
import TigerDuck.Push.PortalMeetings
import TigerDuck.Push.CourseScan
import TigerDuck.Push.Recheck
import TigerDuck.Sync.PlaceholderMerge
import TigerDuck.Sync.PlaceholderMergeExact
import TigerDuck.Push.PushTick
import TigerDuck.Push.TickDrain
import TigerDuck.Auth.RateLimit
import TigerDuck.SyncJobs.Budget
import TigerDuck.Database.BatchedDeletion
import TigerDuck.Bulletins.Feed
import TigerDuck.CourseCatalog.Sweep
import TigerDuck.Transition.TaskGroup
import TigerDuck.SyncJobs.SubmissionProbes
import TigerDuck.Bulletins.UserDispatch
import TigerDuck.Bulletins.DispatchOnce
import TigerDuck.Auth.SiblingRings
import TigerDuck.Push.ActivityRegisters
import TigerDuck.Push.EndJobRows
import TigerDuck.Push.EndJobs
import TigerDuck.Bulletins.DeviceDispatch
import TigerDuck.Bulletins.FanOut
import TigerDuck.Bulletins.DevicePushes
import TigerDuck.Sync.SettingsDocuments
import TigerDuck.Sync.SettingsReplica
import TigerDuck.Auth.Accounts
import TigerDuck.Bulletins.Reposts
import TigerDuck.Auth.StoredTokens
import TigerDuck.Links.Fetch
import TigerDuck.Links.Checks
import TigerDuck.Links.AlertStates
import TigerDuck.Push.SessionReauth
