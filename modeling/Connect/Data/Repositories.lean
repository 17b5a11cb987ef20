/-
  Connect.Data.Repositories — the repository operations that take a `user_id`
  (db/repositories/job.py, datastore.py, settings.py, activity_log.py), and a call of one
  in a transaction of its own.

  An operation that raises has its transaction rolled back, the sequences apart: a value
  once drawn stays drawn.
-/

import Connect.Data.Tables

namespace Connect.Data

open Sql

/-! ## JobRepository -/

namespace JobRepository

def listForUser (s : Tables) (userId : Option Uuid) (limit offset : Nat) : List Job :=
  page limit offset (orderByDesc Job.createdAt (s.importJobs.select fun r => ownedBy userId r.userId))

def cancelJob (s : Tables) (jobId : Int) (userId : Option Uuid) : Bool × Tables :=
  let mine := fun r : Job => (r.id : Int) == jobId && ownedBy userId r.userId
  (0 < s.importJobs.count mine,
    { s with importJobs := s.importJobs.update mine (fun r => { r with status := "cancelled" }) fun _ => rfl })

def deleteForUser (s : Tables) (jobId : Int) (userId : Option Uuid) : Bool × Tables :=
  let mine := fun r : Job => (r.id : Int) == jobId && ownedBy userId r.userId
  (0 < s.importJobs.count mine, { s with importJobs := s.importJobs.delete mine })

def terminal : List String := ["completed", "failed", "cancelled"]

def clearCompletedForUser (s : Tables) (userId : Option Uuid) : Nat × Tables :=
  let mine := fun r : Job => ownedBy userId r.userId && terminal.contains r.status
  (s.importJobs.count mine, { s with importJobs := s.importJobs.delete mine })

end JobRepository

/-! ## DatastoreCredentialsRepository -/

/-- What `upsert` is given. -/
structure CredentialValues where
  datastoreId : String
  datastoreName : String
  filespaceId : String
  filespaceName : String
  bucketName : String
  credentialsKey : Bytes
  region : Option String
  endpoint : Option String
  deriving DecidableEq, Repr

namespace CredentialValues

def row (v : CredentialValues) (userId : Option Uuid) (now : Int) (id : Nat) : DatastoreCredentials :=
  ⟨id, v.datastoreId, v.datastoreName, v.filespaceId, v.filespaceName, v.bucketName, v.region, v.endpoint,
    v.credentialsKey, userId, now⟩

/-- The `set_` of the conflict. -/
def set (v : CredentialValues) (r : DatastoreCredentials) : DatastoreCredentials :=
  { r with
    datastoreName := v.datastoreName
    filespaceId := v.filespaceId
    filespaceName := v.filespaceName
    bucketName := v.bucketName
    credentialsKey := v.credentialsKey
    region := v.region
    endpoint := v.endpoint }

theorem row_id (v : CredentialValues) (userId : Option Uuid) (now : Int) (id : Nat) : (v.row userId now id).id = id :=
  rfl

theorem set_id (v : CredentialValues) (r : DatastoreCredentials) : (v.set r).id = r.id := rfl

theorem set_uq (v : CredentialValues) (r : DatastoreCredentials) : (v.set r).uq = r.uq := rfl

def texts (v : CredentialValues) : List String :=
  [v.datastoreId, v.datastoreName, v.filespaceId, v.filespaceName, v.bucketName] ++ v.region.toList ++
    v.endpoint.toList

/-- A row that stands in the way of a new one under the constraint; NULLs are distinct. -/
def conflict (v : CredentialValues) (userId : Option Uuid) (r : DatastoreCredentials) : Bool :=
  r.uq.any fun k => userId.any fun u => k == (v.datastoreId, u)

end CredentialValues

theorem CredentialValues.conflict_iff {v : CredentialValues} {u : Option Uuid} {r : DatastoreCredentials} :
    v.conflict u r = true ↔ u.isSome = true ∧ r.userId = u ∧ r.datastoreId = v.datastoreId := by
  cases u <;> cases hr : r.userId <;> simp [conflict, DatastoreCredentials.uq, hr, and_comm]

/-- A new row without a conflict keeps the constraint. -/
theorem CredentialValues.no_conflict {v : CredentialValues} {u : Option Uuid} {r : DatastoreCredentials}
    (h : v.conflict u r = false) (now : Int) (id : Nat) (he : r.uq = (v.row u now id).uq) :
    (v.row u now id).uq = none := by
  cases u with
  | none => rfl
  | some u =>
    rw [conflict, he] at h
    simp [DatastoreCredentials.uq, row] at h

namespace DatastoreCredentialsRepository

def listForUser (s : Tables) (userId : Option Uuid) : List DatastoreCredentials :=
  s.datastoreCredentials.select fun r => ownedBy userId r.userId

def getForDatastoreUser (s : Tables) (datastoreId : String) (userId : Option Uuid) :
    Except SqlError (Option DatastoreCredentials) :=
  scalarOneOrNone (s.datastoreCredentials.select fun r => r.datastoreId == datastoreId && ownedBy userId r.userId)

/-- `nextval` is evaluated before the conflict is looked for, so an update draws a value too. -/
def upsert (now : Int) (s : Tables) (v : CredentialValues) (userId : Option Uuid) :
    Except SqlError DatastoreCredentials × Tables :=
  let t := s.datastoreCredentials
  if maxInteger < t.next then (.error .sequenceLimit, s)
  else
    match t.rows.find? (v.conflict userId) with
    | some r =>
      (.ok (v.set r),
        { s with datastoreCredentials := (t.update (v.conflict userId) v.set v.set_id v.set_uq).draw })
    | none =>
      if s.userExists userId then
        (.ok (v.row userId now t.next),
          { s with datastoreCredentials := t.insert (v.row userId now) (v.row_id userId now) })
      else (.error .integrityError, { s with datastoreCredentials := t.draw })

def deleteForDatastoreUser (s : Tables) (datastoreId : String) (userId : Option Uuid) : Bool × Tables :=
  let mine := fun r : DatastoreCredentials => r.datastoreId == datastoreId && ownedBy userId r.userId
  (0 < s.datastoreCredentials.count mine, { s with datastoreCredentials := s.datastoreCredentials.delete mine })

end DatastoreCredentialsRepository

/-! ## SqsCredentialsRepository -/

namespace SqsCredentialsRepository

def listForUser (s : Tables) (userId : Option Uuid) : List SqsCredentials :=
  s.sqsCredentials.select fun r => ownedBy userId r.userId

/-- The single row, or the first where there are more. -/
def getForUser (s : Tables) (userId : Option Uuid) : Option SqsCredentials := (listForUser s userId).head?

def deleteForUser (s : Tables) (userId : Option Uuid) : Nat × Tables :=
  let mine := fun r : SqsCredentials => ownedBy userId r.userId
  (s.sqsCredentials.count mine, { s with sqsCredentials := s.sqsCredentials.delete mine })

def upsertForUser (now : Int) (s : Tables) (accessKey : String) (secretKeyEncrypted : Bytes) (region : String)
    (userId : Option Uuid) : Except SqlError SqsCredentials × Tables :=
  let new := fun id => SqsCredentials.mk id accessKey secretKeyEncrypted region userId now
  if maxInteger < s.sqsCredentials.next then (.error .sequenceLimit, s)
  else if s.userExists userId then
    let t := (deleteForUser s userId).2.sqsCredentials
    (.ok (new t.next), { s with sqsCredentials := t.insert new fun _ => rfl })
  else (.error .integrityError, { s with sqsCredentials := s.sqsCredentials.draw })

end SqsCredentialsRepository

/-! ## SqsQueueRepository -/

namespace SqsQueueRepository

def listForUser (s : Tables) (userId : Option Uuid) : List SqsQueue :=
  orderByDesc SqsQueue.createdAt (s.sqsQueues.select fun q => ownedBy userId q.userId)

def getForUser (s : Tables) (queueId : Uuid) (userId : Option Uuid) : Except SqlError (Option SqsQueue) :=
  scalarOneOrNone (s.sqsQueues.select fun q => q.id == queueId && ownedBy userId q.userId)

/-- The error message is set when there is one, and never cleared. -/
def updateStatusForUser (s : Tables) (queueId : Uuid) (userId : Option Uuid) (status : String)
    (errorMessage : Option String) : Bool × Tables :=
  let mine := fun q : SqsQueue => q.id == queueId && ownedBy userId q.userId
  let values := fun q : SqsQueue => { q with status, errorMessage := errorMessage.or q.errorMessage }
  (0 < s.sqsQueues.count mine, { s with sqsQueues := s.sqsQueues.update mine values fun _ => rfl })

/-- The events of a deleted queue go with it (ON DELETE CASCADE). -/
def deleteForUser (s : Tables) (queueId : Uuid) (userId : Option Uuid) : Bool × Tables :=
  let mine := fun q : SqsQueue => q.id == queueId && ownedBy userId q.userId
  let gone := s.sqsQueues.select mine
  (!gone.isEmpty,
    { s with
      sqsQueues := s.sqsQueues.delete mine
      sqsEvents := s.sqsEvents.delete fun e => gone.any (·.id == e.queueId) })

end SqsQueueRepository

/-! ## SqsEventRepository -/

namespace SqsEventRepository

/-- An event comes with its queue (`selectinload`). -/
def listForUser (s : Tables) (userId : Option Uuid) (limit : Nat) : List (SqsEvent × SqsQueue) :=
  page limit 0 (orderByDesc (fun x => x.1.createdAt)
    (join s.sqsEvents.rows s.sqsQueues.rows fun e q => e.queueId == q.id && ownedBy userId q.userId))

/-- `date_trunc('day', ...)`. -/
def day (t : Int) : Int := t / 86400000000

def countTodayForQueue (now : Int) (s : Tables) (queueId : Uuid) (userId : Option Uuid) : Nat :=
  (join s.sqsEvents.rows s.sqsQueues.rows fun e q =>
    e.queueId == q.id && (e.queueId == queueId && day e.createdAt == day now && ownedBy userId q.userId)).length

def clearForUser (s : Tables) (userId : Option Uuid) : Nat × Tables :=
  let queues := s.sqsQueues.select fun q => ownedBy userId q.userId
  let mine := fun e : SqsEvent => queues.any (·.id == e.queueId)
  (s.sqsEvents.count mine, { s with sqsEvents := s.sqsEvents.delete mine })

end SqsEventRepository

/-! ## UserSettingsRepository -/

namespace UserSettingsRepository

/-- `user_id == None` is `IS NULL`, of a column without NULLs. -/
def mine (userId : Option Uuid) (key : String) (r : UserSetting) : Bool :=
  ownedBy userId (some r.userId) && r.key == key

def get (s : Tables) (userId : Option Uuid) (key : String) : Except SqlError (Option String) :=
  scalarOneOrNone ((s.userSettings.select (mine userId key)).map (·.value))

/-- The conflict sets the value and leaves `updated_at`. -/
def upsert (now : Int) (s : Tables) (userId : Option Uuid) (key value : String) : Except SqlError Unit × Tables :=
  match userId with
  | none => (.error .integrityError, s)
  | some u =>
    let t := s.userSettings
    if t.rows.any fun r => r.pk == (u, key) then
      (.ok (), { s with
        userSettings := t.update (fun r => r.pk == (u, key)) (fun r => { r with value }) fun _ => rfl })
    else if s.userExists (some u) then (.ok (), { s with userSettings := t.insert ⟨u, key, value, now⟩ })
    else (.error .integrityError, s)

def delete (s : Tables) (userId : Option Uuid) (key : String) : Bool × Tables :=
  (0 < s.userSettings.count (mine userId key), { s with userSettings := s.userSettings.delete (mine userId key) })

end UserSettingsRepository

/-! ## ActivityLogRepository -/

namespace ActivityLogRepository

def filtered (category : Option String) (userId : Option Uuid) (includeAllUsers : Bool) (r : ActivityLog) : Bool :=
  category.all (r.category == ·) && (includeAllUsers || ownedBy userId r.userId)

def listFiltered (s : Tables) (category : Option String) (userId : Option Uuid) (includeAllUsers : Bool)
    (limit offset : Nat) : List ActivityLog :=
  page limit offset (orderByDesc ActivityLog.createdAt
    (s.activityLogs.select (filtered category userId includeAllUsers)))

def countFiltered (s : Tables) (category : Option String) (userId : Option Uuid) (includeAllUsers : Bool) : Nat :=
  s.activityLogs.count (filtered category userId includeAllUsers)

def clearForUser (s : Tables) (category : Option String) (userId : Option Uuid) : Nat × Tables :=
  let mine := fun r : ActivityLog => ownedBy userId r.userId && category.all (r.category == ·)
  (s.activityLogs.count mine, { s with activityLogs := s.activityLogs.delete mine })

end ActivityLogRepository

/-! ## A call -/

inductive Call where
  | listJobs (limit offset : Int)
  | cancelJob (jobId : Int)
  | deleteJob (jobId : Int)
  | clearCompletedJobs
  | listDatastores
  | getDatastore (datastoreId : String)
  | upsertDatastore (v : CredentialValues)
  | deleteDatastore (datastoreId : String)
  | listSqsCredentials
  | getSqsCredentials
  | upsertSqsCredentials (accessKey : String) (secretKeyEncrypted : Bytes) (region : String)
  | deleteSqsCredentials
  | listQueues
  | getQueue (queueId : Uuid)
  | updateQueueStatus (queueId : Uuid) (status : String) (errorMessage : Option String)
  | deleteQueue (queueId : Uuid)
  | listEvents (limit : Int)
  | countEventsToday (queueId : Uuid)
  | clearEvents
  | getSetting (key : String)
  | upsertSetting (key value : String)
  | deleteSetting (key : String)
  | listLogs (category : Option String) (limit offset : Int)
  | countLogs (category : Option String)
  | clearLogs (category : Option String)
  deriving DecidableEq, Repr

/-- The parameters that the driver and the server take. -/
def Call.binds : Call → Bool
  | .listJobs limit offset => isLimit limit && isLimit offset
  | .cancelJob jobId | .deleteJob jobId => isInteger jobId
  | .upsertDatastore v => v.texts.all isText
  | .getDatastore datastoreId | .deleteDatastore datastoreId => isText datastoreId
  | .upsertSqsCredentials accessKey _ region => isText accessKey && isText region
  | .updateQueueStatus _ status errorMessage => isText status && errorMessage.all isText
  | .listEvents limit => isLimit limit
  | .getSetting key | .deleteSetting key => isText key
  | .upsertSetting key value => isText key && isText value
  | .listLogs category limit offset => category.all isText && isLimit limit && isLimit offset
  | .countLogs category | .clearLogs category => category.all isText
  | _ => true

inductive Reply where
  | raised (e : SqlError)
  | jobs (rows : List Job)
  | datastores (rows : List DatastoreCredentials)
  | sqsCredentials (rows : List SqsCredentials)
  | queues (rows : List SqsQueue)
  | events (rows : List (SqsEvent × SqsQueue))
  | setting (value : Option String)
  | logs (rows : List ActivityLog)
  | bool (b : Bool)
  | count (n : Nat)
  | done

def reply {α : Type} (f : α → Reply) : Except SqlError α → Reply
  | .ok a => f a
  | .error e => .raised e

/-- The operation of a call; a single row, or none, is a list of rows too. -/
def perform (now : Int) (s : Tables) (userId : Option Uuid) : Call → Reply × Tables
  | .listJobs limit offset => (.jobs (JobRepository.listForUser s userId limit.toNat offset.toNat), s)
  | .cancelJob jobId => (JobRepository.cancelJob s jobId userId).map .bool id
  | .deleteJob jobId => (JobRepository.deleteForUser s jobId userId).map .bool id
  | .clearCompletedJobs => (JobRepository.clearCompletedForUser s userId).map .count id
  | .listDatastores => (.datastores (DatastoreCredentialsRepository.listForUser s userId), s)
  | .getDatastore datastoreId =>
    (reply (fun r => .datastores r.toList)
      (DatastoreCredentialsRepository.getForDatastoreUser s datastoreId userId), s)
  | .upsertDatastore v =>
    (DatastoreCredentialsRepository.upsert now s v userId).map (reply fun r => .datastores [r]) id
  | .deleteDatastore datastoreId =>
    (DatastoreCredentialsRepository.deleteForDatastoreUser s datastoreId userId).map .bool id
  | .listSqsCredentials => (.sqsCredentials (SqsCredentialsRepository.listForUser s userId), s)
  | .getSqsCredentials => (.sqsCredentials (SqsCredentialsRepository.getForUser s userId).toList, s)
  | .upsertSqsCredentials accessKey secretKeyEncrypted region =>
    (SqsCredentialsRepository.upsertForUser now s accessKey secretKeyEncrypted region userId).map
      (reply fun r => .sqsCredentials [r]) id
  | .deleteSqsCredentials => (SqsCredentialsRepository.deleteForUser s userId).map .count id
  | .listQueues => (.queues (SqsQueueRepository.listForUser s userId), s)
  | .getQueue queueId => (reply (fun q => .queues q.toList) (SqsQueueRepository.getForUser s queueId userId), s)
  | .updateQueueStatus queueId status errorMessage =>
    (SqsQueueRepository.updateStatusForUser s queueId userId status errorMessage).map .bool id
  | .deleteQueue queueId => (SqsQueueRepository.deleteForUser s queueId userId).map .bool id
  | .listEvents limit => (.events (SqsEventRepository.listForUser s userId limit.toNat), s)
  | .countEventsToday queueId => (.count (SqsEventRepository.countTodayForQueue now s queueId userId), s)
  | .clearEvents => (SqsEventRepository.clearForUser s userId).map .count id
  | .getSetting key => (reply .setting (UserSettingsRepository.get s userId key), s)
  | .upsertSetting key value => (UserSettingsRepository.upsert now s userId key value).map (reply fun _ => .done) id
  | .deleteSetting key => (UserSettingsRepository.delete s userId key).map .bool id
  | .listLogs category limit offset =>
    (.logs (ActivityLogRepository.listFiltered s category userId false limit.toNat offset.toNat), s)
  | .countLogs category => (.count (ActivityLogRepository.countFiltered s category userId false), s)
  | .clearLogs category => (ActivityLogRepository.clearForUser s category userId).map .count id

/-- A call by `userId` at the time `now`. -/
def exec (now : Int) (s : Tables) (userId : Option Uuid) (c : Call) : Reply × Tables :=
  if c.binds then perform now s userId c else (.raised .dataError, s)

/-- Calls of one user, one after the other. -/
def execAll (s : Tables) (userId : Option Uuid) : List (Int × Call) → List Reply × Tables
  | [] => ([], s)
  | (now, c) :: calls =>
    let (r, s') := exec now s userId c
    let (rs, s'') := execAll s' userId calls
    (r :: rs, s'')

end Connect.Data
