/-
  Connect.Data.Tables — the tables a user's data is in (db/models.py): import_jobs,
  datastore_credentials, sqs_credentials, sqs_queues, sqs_events, user_settings and
  activity_logs.

  A row belongs to its `user_id`, or to nobody (NULL), which counts as one more owner; an
  event belongs to whoever its queue belongs to. Times are microseconds of UTC.
-/

import Connect.Sql.Table
import Connect.Json
import Connect.Uuid

namespace Connect.Data

open Sql

abbrev Bytes := List UInt8

structure Job where
  id : Nat
  status : String
  bucket : String
  keyPrefix : String
  filespaceId : String
  datastoreId : String
  totalFiles : Nat
  completedFiles : Nat
  failedFiles : Nat
  errorMessage : Option String
  createdAt : Int
  startedAt : Option Int
  completedAt : Option Int
  userId : Option Uuid
  deriving DecidableEq, Repr

structure DatastoreCredentials where
  id : Nat
  datastoreId : String
  datastoreName : String
  filespaceId : String
  filespaceName : String
  bucketName : String
  region : Option String
  endpoint : Option String
  credentialsKey : Bytes
  userId : Option Uuid
  createdAt : Int
  deriving DecidableEq, Repr

structure SqsCredentials where
  id : Nat
  accessKey : String
  secretKeyEncrypted : Bytes
  region : String
  userId : Option Uuid
  createdAt : Int
  deriving DecidableEq, Repr

structure SqsQueue where
  id : Uuid
  queueUrl : String
  queueArn : Option String
  name : String
  region : String
  datastoreId : String
  filespaceId : String
  importPrefix : String
  status : String
  userId : Option Uuid
  createdAt : Int
  lastPollAt : Option Int
  errorMessage : Option String
  deriving DecidableEq, Repr

structure SqsEvent where
  id : Uuid
  queueId : Uuid
  messageId : String
  eventType : String
  bucket : String
  objectKey : String
  objectSize : Option Int
  eventTime : Option Int
  status : String
  jobId : Option String
  errorMessage : Option String
  createdAt : Int
  deriving DecidableEq, Repr

structure ActivityLog where
  id : Nat
  category : String
  action : String
  message : String
  level : String
  userId : Option Uuid
  details : Option Json
  relatedId : Option String
  relatedType : Option String
  ipAddress : Option String
  createdAt : Int
  deriving Repr

/-- `user_id` is part of the primary key, so it is never NULL. -/
structure UserSetting where
  userId : Uuid
  key : String
  value : String
  updatedAt : Int
  deriving DecidableEq, Repr

def UserSetting.pk (row : UserSetting) : Uuid × String := (row.userId, row.key)

/-- The columns of `uq_datastore_credentials_datastore_user`. -/
def DatastoreCredentials.uq (row : DatastoreCredentials) : Option (String × Uuid) :=
  row.userId.map fun u => (row.datastoreId, u)

@[ext]
structure CredentialsTable extends Serial DatastoreCredentials.id where
  uq : UniqueBy DatastoreCredentials.uq rows

namespace CredentialsTable

def restrict (t : CredentialsTable) (q : DatastoreCredentials → Bool) : CredentialsTable :=
  ⟨t.toSerial.restrict q, t.uq.sublist List.filter_sublist⟩

def delete (t : CredentialsTable) (p : DatastoreCredentials → Bool) : CredentialsTable := t.restrict fun r => !p r

def update (t : CredentialsTable) (p : DatastoreCredentials → Bool) (f : DatastoreCredentials → DatastoreCredentials)
    (hid : ∀ r, (f r).id = r.id) (huq : ∀ r, (f r).uq = r.uq) : CredentialsTable :=
  ⟨t.toSerial.update p f hid, t.uq.map fun r => by
    split
    · exact huq r
    · rfl⟩

def draw (t : CredentialsTable) : CredentialsTable := ⟨t.toSerial.draw, t.uq⟩

/-- A row that the constraint forbids is refused. -/
def insert (t : CredentialsTable) (new : Nat → DatastoreCredentials) (hid : ∀ n, (new n).id = n) : CredentialsTable :=
  if h : ∀ r ∈ t.rows, r.uq = (new t.next).uq → (new t.next).uq = none then ⟨t.toSerial.insert new hid, t.uq.append h⟩
  else t.draw

theorem insert_rows {t : CredentialsTable} {new : Nat → DatastoreCredentials} (hid : ∀ n, (new n).id = n)
    (h : ∀ r ∈ t.rows, r.uq = (new t.next).uq → (new t.next).uq = none) :
    (t.insert new hid).rows = t.rows ++ [new t.next] := by
  unfold insert
  rw [dif_pos h]
  rfl

theorem insert_next (t : CredentialsTable) (new : Nat → DatastoreCredentials) (hid : ∀ n, (new n).id = n) :
    (t.insert new hid).next = t.next + 1 := by
  unfold insert
  split <;> rfl

end CredentialsTable

/-- `users` are the ids a foreign key may refer to. -/
structure Tables where
  users : List Uuid
  importJobs : Serial Job.id
  datastoreCredentials : CredentialsTable
  sqsCredentials : Serial SqsCredentials.id
  sqsQueues : Table SqsQueue.id
  sqsEvents : Table SqsEvent.id
  userSettings : Table UserSetting.pk
  activityLogs : Serial ActivityLog.id

inductive SqlError where
  /-- A parameter the driver cannot encode, or a LIMIT or OFFSET below zero. -/
  | dataError
  /-- A foreign key, or a NULL in a column without NULLs. -/
  | integrityError
  | sequenceLimit
  /-- `scalar_one_or_none` on more than one row. -/
  | multipleResultsFound
  deriving DecidableEq, Repr

/-- A column of type text holds no NUL. -/
def isText (s : String) : Bool := s.toList.all (· != '\x00')

/-- The largest value of an `INTEGER` key. -/
def maxInteger : Nat := 2147483647

def isInteger (n : Int) : Bool := -2147483648 ≤ n && n ≤ maxInteger

/-- `LIMIT` and `OFFSET` are of type bigint. -/
def isLimit (n : Int) : Bool := 0 ≤ n && n < 9223372036854775808

/-- `column.is_(None)` for no user, else `column == user_id`, which no NULL satisfies. -/
def ownedBy : Option Uuid → Option Uuid → Bool
  | none, column => column.isNone
  | some userId, column => column == some userId

theorem ownedBy_eq (userId column : Option Uuid) : ownedBy userId column = (column == userId) := by
  cases userId with
  | none => cases column <;> rfl
  | some _ => rfl

@[simp] theorem ownedBy_iff {userId column : Option Uuid} : ownedBy userId column = true ↔ column = userId := by
  rw [ownedBy_eq]
  exact beq_iff_eq

/-- A reference to `users`, which NULL satisfies. -/
def Tables.userExists (s : Tables) (userId : Option Uuid) : Bool := userId.all fun u => s.users.contains u

/-- `scalar_one_or_none`. -/
def scalarOneOrNone {α : Type} : List α → Except SqlError (Option α)
  | [] => .ok none
  | [row] => .ok (some row)
  | _ :: _ :: _ => .error .multipleResultsFound

end Connect.Data
