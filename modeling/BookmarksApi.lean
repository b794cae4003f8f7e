import BookmarksApi.Machinery.Table
import BookmarksApi.Machinery.Ordering
import BookmarksApi.Machinery.Pages
import BookmarksApi.Machinery.Rounding
import BookmarksApi.Machinery.Windows
import BookmarksApi.Machinery.Occurrences
import BookmarksApi.Machinery.Versioned
import BookmarksApi.Machinery.Runs
import BookmarksApi.Machinery.Beside
import BookmarksApi.Machinery.Transactions
import BookmarksApi.Machinery.Serialization
import BookmarksApi.Machinery.Projection
import BookmarksApi.Machinery.Knowledge
import BookmarksApi.Text
import BookmarksApi.Text.Like
import BookmarksApi.Text.Split
import BookmarksApi.Text.Integers
import BookmarksApi.Stamp
import BookmarksApi.Stamp.Calendar
import BookmarksApi.Platform
import BookmarksApi.Stamp.Order
import BookmarksApi.Stamp.Months
import BookmarksApi.Stamp.UnixTime
import BookmarksApi.Core.Errors
import BookmarksApi.Core.Http
import BookmarksApi.Config
import BookmarksApi.Models
import BookmarksApi.Orm
import BookmarksApi.Utils.ETag
import BookmarksApi.Utils.IfMatch
import BookmarksApi.Utils.ETagLists
import BookmarksApi.Utils.Tags
import BookmarksApi.Utils.LoginGuard
import BookmarksApi.Utils.Security
import BookmarksApi.Schemas
import BookmarksApi.Repositories.Tag
import BookmarksApi.Repositories.Bookmark
import BookmarksApi.Repositories.Stats
import BookmarksApi.Repositories.User
import BookmarksApi.Services.Bookmark
import BookmarksApi.Services.Auth
import BookmarksApi.Routers.Bookmarks
import BookmarksApi.Routers.Auth
import BookmarksApi.Core.Deps
import BookmarksApi.Core.RateLimit
import BookmarksApi.Core.TokenLife
import BookmarksApi.Core.Middleware
import BookmarksApi.Main
import BookmarksApi.Schemas.HttpUrl
import BookmarksApi.Schemas.Validation
import BookmarksApi.Schemas.Auth
import BookmarksApi.Store.View
import BookmarksApi.Store.Statements
import BookmarksApi.Store.Writes
import BookmarksApi.Store.Entries
import BookmarksApi.Store.Accounts
import BookmarksApi.Store.Frame
import BookmarksApi.Store.Columns
import BookmarksApi.Store.VersionSteps
import BookmarksApi.Store.Reads
import BookmarksApi.Store.Pages
import BookmarksApi.Store.Pagination
import BookmarksApi.Store.Cursors
import BookmarksApi.Store.Search
import BookmarksApi.Store.Dates
import BookmarksApi.Store.Numbers
import BookmarksApi.Store.Shelf
import BookmarksApi.Sequential.Reference
import BookmarksApi.Sequential.Integers
import BookmarksApi.Sequential.Isolation
import BookmarksApi.Sequential.ETags
import BookmarksApi.Sequential.LoginSecrecy
import BookmarksApi.Sequential.Lockouts
import BookmarksApi.Sequential.LoginRuns
import BookmarksApi.Sequential.TagStore
import BookmarksApi.Sequential.TagSearch
import BookmarksApi.Sequential.Chronology
import BookmarksApi.Alembic.Versions
import BookmarksApi.Alembic.Downgrades
import BookmarksApi.Concurrent.Machine
import BookmarksApi.Concurrent.Flush
import BookmarksApi.Concurrent.Commit
import BookmarksApi.Concurrent.Moves
import BookmarksApi.Concurrent.Alone
import BookmarksApi.Concurrent.Invariant
import BookmarksApi.Concurrent.Progress
import BookmarksApi.Concurrent.LostUpdates
import BookmarksApi.Concurrent.Refusals
import BookmarksApi.Concurrent.Serialization
import BookmarksApi.Concurrent.OwnCommits
import BookmarksApi.Concurrent.Reads
import BookmarksApi.Concurrent.SpentETags
import BookmarksApi.Concurrent.Ledger
import BookmarksApi.Concurrent.Conflicts
import BookmarksApi.Concurrent.OwnWrites
import BookmarksApi.Concurrent.StrongETags
import BookmarksApi.Concurrent.Linearizability
import BookmarksApi.Concurrent.TagRaces
import BookmarksApi.Concurrent.TagNames
import BookmarksApi.Concurrent.LockOrder
import BookmarksApi.Concurrent.Registration
import BookmarksApi.Concurrent.Newcomers
import BookmarksApi.Concurrent.Rollback
import BookmarksApi.Concurrent.Guessing
import BookmarksApi.Concurrent.Traversal
import BookmarksApi.Reachable.States
import BookmarksApi.Reachable.Statistics
import BookmarksApi.Reachable.Months
import BookmarksApi.Api
import BookmarksApi.Reachable.Sessions
import BookmarksApi.Reachable.Escalation
import BookmarksApi.Reachable.Service
