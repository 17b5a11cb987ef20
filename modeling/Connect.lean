import Connect.Await.Prog
import Connect.Await.Pool
import Connect.Await.Rely
import Connect.Await.Exec
import Connect.Await.Steps
import Connect.Await.Funnel
import Connect.Py
import Connect.Json
import Connect.Url
import Connect.Worker.Idempotency
import Connect.Worker.AtMostOnce
import Connect.Worker.Guard
import Connect.Worker.Jobs
import Connect.Worker.ImportJob
import Connect.Worker.StatusMonotone
import Connect.Worker.Stale
import Connect.Worker.Cancel
import Connect.Worker.Orphan
import Connect.Worker.Settled
import Connect.Worker.Exit
import Connect.Sqs.Notification
import Connect.Sqs.Parse
import Connect.Sqs.Store
import Connect.Sqs.Poller
import Connect.Sqs.Lock
import Connect.Sqs.Sweep
import Connect.Sqs.Unique
import Connect.Sqs.Delivery
import Connect.Sqs.Poison
import Connect.Sqs.Accounting
import Connect.Sqs.QueueUrl
import Connect.Uuid
import Connect.Regex
import Connect.Auth.Store
import Connect.Auth.Routes
import Connect.Auth.Revoked
import Connect.Auth.EmailDomain
import Connect.Auth.Invite
import Connect.Auth.StaleLogin
import Connect.Auth.LastAdmin
import Connect.Sql.Table
import Connect.Sql.Map
import Connect.Sql.ReadCommitted
import Connect.Data.Tables
import Connect.Data.Repositories
import Connect.Data.Isolation
import Connect.Data.Credentials
import Connect.Data.SqsCredentials
import Connect.Cache.ReadOnce
import Connect.Web.Session
import Connect.Web.Browse
import Connect.Doc.ReadWrite
import Connect.Sqs.LostUpdate
import Connect.Redis
import Connect.Metrics.QueueDepth
import Connect.Metrics.Framing
import Connect.Shell.StreamReader
import Connect.Shell.Stream
import Connect.Web.LogStream
import Connect.Json.Dumps
import Connect.Secrets.Store
import Connect.Tfvars.Format
import Connect.Tfvars.Form
import Connect.Tfvars.RoundTrip
import Connect.Path
import Connect.LucidLink.Client
import Connect.LucidLink.Sound
import Connect.LucidLink.Tree
import Connect.LucidLink.Converge
import Connect.LucidLink.Destination
import Connect.Sqs.OwnBucket
import Connect.Worker.Listing
import Connect.Sqs.SameImports
import Connect.Worker.Batches
import Connect.LucidLink.Meaning
import Connect.Sqs.Isolated
import Connect.Sqs.Wrapped
import Connect.Web.S3Browser
import Connect.Data.LogPaging
import Connect.Web.JobList
import Connect.Bootstrap.Wizard
import Connect.Await.Lift
import Connect.Auth.Gate
import Connect.Sqs.Console
import Connect.Await.Serial
import Connect.Web.Connection
import Connect.Web.Listed
import Connect.EventStream
import Connect.Web.LogFrames
import Connect.Web.ImportFolder
import Connect.Web.Lifespan
import Connect.Web.FirstAdmin
import Connect.Web.Drained
import Connect.Web.AuditTrail
