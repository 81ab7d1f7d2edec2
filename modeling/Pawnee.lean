import Pawnee.Foundation.LockedCounters
import Pawnee.Foundation.Machines
import Pawnee.Foundation.Message
import Pawnee.Foundation.ShortCounts
import Pawnee.Child.Answers
import Pawnee.Child.Confinement
import Pawnee.Child.Head
import Pawnee.Child.Reading
import Pawnee.Child.RoundTrip
import Pawnee.Child.ResponseFraming
import Pawnee.Child.SiteReaders
import Pawnee.Child.HeaderBlock
import Pawnee.Child.RequestLine
import Pawnee.Child.Targets
import Pawnee.Child.VersionGate
import Pawnee.Child.StatsPage
import Pawnee.Server.Counters
import Pawnee.Server.Accounting
import Pawnee.Server.AcceptLoop
import Pawnee.Server.Snapshot
import Pawnee.Server.Persistence
import Pawnee.Child.VhostLookup
import Pawnee.Loading.VhostTable
import Pawnee.Loading.ServerCfg
import Pawnee.Loading.Comments
import Pawnee.Child.MimeTable
import Pawnee.Child.ContentType
import Pawnee.Child.FileSize
import Pawnee.Child.PartialWrites
import Pawnee.Child.HeaderStore
import Pawnee.Child.CleanHeaders
import Pawnee.Child.LogLine
import Pawnee.Child.SameFile
import Pawnee.Child.RootBuffer
import Pawnee.Foundation.Calendar
import Pawnee.Child.HttpDate
import Pawnee.Child.HeaderCursor
import Pawnee.Server.Progress
import Pawnee.Server.LoggedRequests
import Pawnee.Server.PageOrder
import Pawnee.Server.Isolation
import Pawnee.Child.Website
import Pawnee.Child.ClientRequest
import Pawnee.Server.Service
import Pawnee.Foundation.SharedFiles
import Pawnee.Foundation.Notices
import Pawnee.Server.Host
import Pawnee.Server.Reaping
import Pawnee.Server.LogFiles
import Pawnee.Server.Schedules
import Pawnee.Server.Confluence
import Pawnee.Server.ErrorLog
import Pawnee.Source.AppPath
import Pawnee.Loading.SiteDirectory
import Pawnee.Foundation.FairRuns
import Pawnee.Foundation.Postconditions
import Pawnee.Server.Fairness
import Pawnee.Server.Launching
import Pawnee.Server.Lifecycle
import Pawnee.Server.Question
