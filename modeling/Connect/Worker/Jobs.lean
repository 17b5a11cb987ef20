/-
  Connect.Worker.Jobs — the import_jobs table, the ARQ queue, and what a statement on them
  does (db/repositories/job.py, AsyncRepository.update).

  `AsyncRepository.update` is two operations: the SELECT of `session.get`, and the flush,
  an UPDATE of the columns that differ from the loaded row (none, when none differ) with
  the refresh and the commit. Another transaction may commit between the two (READ
  COMMITTED); after the UPDATE the row is locked until the commit. A flush whose row is
  gone raises. Every other statement is one operation with its commit, and an operation
  that raises leaves the tables as they were.

  The services outside the database (Valkey, S3, LucidLink, the secrets file, the tables
  of credentials and settings) answer as they please.

  `touched` is no column: it says when a commit last wrote the row.
-/

import Connect.Await.Pool
import Connect.Py

namespace Connect.Worker

open Await

inductive Status where
  | pending
  | running
  | completed
  | failed
  | cancelled
  deriving DecidableEq, Repr

/-- The states `clear_completed_for_user` calls terminal. -/
def Status.terminal : Status → Bool
  | .completed | .failed | .cancelled => true
  | .pending | .running => false

structure Job where
  status : Status
  bucket : String
  keyPrefix : String
  filespaceId : String
  datastoreId : String
  totalFiles : Nat
  completedFiles : Nat
  failedFiles : Nat
  errorMessage : Option String
  createdAt : Nat
  startedAt : Option Nat
  completedAt : Option Nat
  userId : Option String
  deriving DecidableEq, Repr

/-- The fields of an `update`; `none` where the caller passes no such field. -/
structure JobFields where
  status : Option Status := none
  totalFiles : Option Nat := none
  completedFiles : Option Nat := none
  failedFiles : Option Nat := none
  errorMessage : Option String := none
  startedAt : Option Nat := none
  completedAt : Option Nat := none
  deriving DecidableEq, Repr

/-- The columns of the UPDATE: the fields that differ from the loaded row. -/
def JobFields.differing (fields : JobFields) (loaded : Job) : JobFields :=
  { status := fields.status.filter (· != loaded.status)
    totalFiles := fields.totalFiles.filter (· != loaded.totalFiles)
    completedFiles := fields.completedFiles.filter (· != loaded.completedFiles)
    failedFiles := fields.failedFiles.filter (· != loaded.failedFiles)
    errorMessage := fields.errorMessage.filter (some · != loaded.errorMessage)
    startedAt := fields.startedAt.filter (some · != loaded.startedAt)
    completedAt := fields.completedAt.filter (some · != loaded.completedAt) }

def JobFields.apply (columns : JobFields) (row : Job) : Job :=
  { row with
    status := columns.status.getD row.status
    totalFiles := columns.totalFiles.getD row.totalFiles
    completedFiles := columns.completedFiles.getD row.completedFiles
    failedFiles := columns.failedFiles.getD row.failedFiles
    errorMessage := columns.errorMessage <|> row.errorMessage
    startedAt := columns.startedAt <|> row.startedAt
    completedAt := columns.completedAt <|> row.completedAt }

structure DsCred where
  bucketName : String
  region : Option String
  endpoint : Option String
  accessKey : String
  secretKey : String
  deriving DecidableEq, Repr

/-- What the worker publishes on `worker:logs`. -/
inductive LogLine where
  | notFound (jobId : Nat)
  | started (keyPrefix : String)
  | failed (text : String)
  | usingFilespace (filespaceId : String)
  | scanning
  | noFiles
  | found (total : Nat)
  | creating (directories : Nat)
  | folderFailed (folder error : String)
  | cancelled
  | importing
  | progress (done total new skipped failed : Nat) (firstError : Option String)
  | cancelledAt (completed total : Nat)
  | complete (new skipped failed : Nat)
  | timedOut (jobs : Nat)
  deriving DecidableEq, Repr

inductive JobOp where
  | createJob (userId : Option String) (bucket keyPrefix filespaceId datastoreId : String)
  | getJob (jobId : Nat)
  /-- The SELECT of an `update` with these fields. -/
  | loadJob (jobId : Nat) (fields : JobFields)
  /-- The UPDATE, refresh and commit of an `update` that loaded this row. -/
  | flushJob (jobId : Nat) (loaded : Job) (fields : JobFields)
  | cancelJob (jobId : Nat) (userId : Option String)
  | timeoutStale (cutoff : Nat)
  | deleteForUser (jobId : Nat) (userId : Option String)
  | clearCompletedForUser (userId : Option String)
  | now
  | publish (line : LogLine)
  | enqueueJob (jobId : Nat)
  | loadLlToken (userId : String)
  | getUserToken (userId : String)
  | getLucidlinkToken
  | getDatastoreCredentials (datastoreId : String) (userId : Option String)
  | getUserSetting (userId key : String)
  | newS3Service (accessKey secretKey region : String) (endpoint : Option String)
  | listAllObjects (bucket keyPrefix : String)
  | ensureStructure (fullKey : String)
  | importFile (s3Key llPath : String)
  | close
  | sleep
  deriving DecidableEq, Repr

def JobOp.Ret : JobOp → Type
  | .createJob _ _ _ _ _ => Nat
  | .getJob _ => Option Job
  | .loadJob _ _ => Option Job
  | .flushJob _ _ _ => Job
  | .cancelJob _ _ => Bool
  | .timeoutStale _ => Nat
  | .deleteForUser _ _ => Bool
  | .clearCompletedForUser _ => Nat
  | .now => Nat
  | .enqueueJob _ => String
  | .loadLlToken _ => Option String
  | .getUserToken _ => Option String
  | .getLucidlinkToken => Option String
  | .getDatastoreCredentials _ _ => Option DsCred
  | .getUserSetting _ _ => Option String
  | .listAllObjects _ _ => List String
  | .ensureStructure _ => Bool × String
  | .importFile _ _ => Nat × String
  | .publish _ | .newS3Service _ _ _ _ | .close | .sleep => Unit

/-- Not a statement on import_jobs nor a message to ARQ. -/
def JobOp.outside : JobOp → Prop
  | .createJob _ _ _ _ _ | .getJob _ | .loadJob _ _ | .flushJob _ _ _ | .cancelJob _ _ | .timeoutStale _
  | .deleteForUser _ _ | .clearCompletedForUser _ | .enqueueJob _ => False
  | _ => True

abbrev jobSig : Sig := ⟨JobOp, JobOp.Ret⟩

structure Db where
  now : Nat
  /-- The next value of the id sequence. -/
  nextId : Nat
  jobs : Nat → Option Job
  touched : Nat → Nat
  /-- The messages of the ARQ queue: its own job id, and the argument. -/
  queue : List (String × Nat)
  /-- Every ARQ job id ever issued by `enqueue_job`. -/
  issued : List String

def Db.put (s : Db) (jobId : Nat) (row : Job) : Db :=
  { s with jobs := upd s.jobs jobId (some row), touched := upd s.touched jobId s.now }

def Db.remove (s : Db) (p : Nat → Job → Bool) : Db :=
  { s with jobs := fun i => (s.jobs i).filter fun row => !p i row }

/-- The ids of the rows that satisfy `p`. -/
def Db.rowcount (s : Db) (p : Nat → Job → Bool) : Nat := (List.range s.nextId).countP fun i => (s.jobs i).any (p i)

/-- `status = 'running' AND started_at < cutoff`; a comparison with NULL is not true. -/
def Job.stale (cutoff : Nat) (row : Job) : Bool := row.status == .running && row.startedAt.any (· < cutoff)

def Db.timeoutStale (s : Db) (cutoff : Nat) : Db :=
  { s with
    jobs := fun i => (s.jobs i).map fun row =>
      if row.stale cutoff then { row with status := .failed, errorMessage := some "timed out" } else row
    touched := fun i => if (s.jobs i).any (Job.stale cutoff) then s.now else s.touched i }

/-- The ids ARQ gives to its cron jobs. -/
def cronId (arqId : String) : Bool := "cron:".toList.isPrefixOf arqId.toList

def newJob (s : Db) (userId : Option String) (bucket keyPrefix filespaceId datastoreId : String) : Job :=
  { status := .pending, bucket, keyPrefix, filespaceId, datastoreId, totalFiles := 0, completedFiles := 0,
    failedFiles := 0, errorMessage := none, createdAt := s.now, startedAt := none, completedAt := none, userId }

/-- The tables after an operation that was answered so; `none` when it cannot be. -/
def Db.exec (s : Db) : (o : JobOp) → Except Exc o.Ret → Option Db
  | .createJob userId bucket keyPrefix filespaceId datastoreId, .ok (jobId : Nat) =>
    if s.nextId ≤ jobId then
      some { s.put jobId (newJob s userId bucket keyPrefix filespaceId datastoreId) with nextId := jobId + 1 }
    else none
  | .getJob jobId, .ok (row : Option Job) => if row = s.jobs jobId then some s else none
  | .loadJob jobId _, .ok (row : Option Job) => if row = s.jobs jobId then some s else none
  | .flushJob jobId loaded fields, .ok (row : Job) =>
    match s.jobs jobId with
    | none => none
    | some current =>
      if row = (fields.differing loaded).apply current then
        some (if fields.differing loaded = {} then s else s.put jobId row)
      else none
  | .cancelJob jobId userId, .ok (updated : Bool) =>
    match (s.jobs jobId).filter (·.userId = userId) with
    | none => if updated then none else some s
    | some row => if updated then some (s.put jobId { row with status := .cancelled }) else none
  | .timeoutStale cutoff, .ok (n : Nat) =>
    if n = s.rowcount (fun _ => Job.stale cutoff) then some (s.timeoutStale cutoff) else none
  | .deleteForUser jobId userId, .ok (removed : Bool) =>
    let p := fun i (row : Job) => i == jobId && row.userId == userId
    if removed = decide (0 < s.rowcount p) then some (s.remove p) else none
  | .clearCompletedForUser userId, .ok (n : Nat) =>
    let p := fun _ (row : Job) => row.userId == userId && row.status.terminal
    if n = s.rowcount p then some (s.remove p) else none
  | .now, .ok (t : Nat) => if t = s.now then some s else none
  | .enqueueJob jobId, .ok (arqId : String) =>
    if arqId ≠ "" ∧ cronId arqId = false ∧ arqId ∉ s.issued then
      some { s with queue := (arqId, jobId) :: s.queue, issued := arqId :: s.issued }
    else none
  | _, _ => some s

/-- What the database answers, next to services that accept everything; the bucket holds `keys`. -/
def Db.answer (s : Db) (keys : List String) : (o : JobOp) → Except Exc o.Ret
  | .createJob _ _ _ _ _ => .ok s.nextId
  | .getJob jobId => .ok (s.jobs jobId)
  | .loadJob jobId _ => .ok (s.jobs jobId)
  | .flushJob jobId loaded fields =>
    match s.jobs jobId with
    | none => .error (.exception "StaleDataError")
    | some current => .ok ((fields.differing loaded).apply current)
  | .cancelJob jobId userId => .ok ((s.jobs jobId).filter (·.userId = userId)).isSome
  | .timeoutStale cutoff => .ok (s.rowcount fun _ => Job.stale cutoff)
  | .deleteForUser jobId userId => .ok (decide (0 < s.rowcount fun i row => i == jobId && row.userId == userId))
  | .clearCompletedForUser userId => .ok (s.rowcount fun _ row => row.userId == userId && row.status.terminal)
  | .now => .ok s.now
  | .enqueueJob _ => .ok (String.ofList (List.replicate (s.issued.length + 1) 'a'))
  | .loadLlToken _ | .getUserToken _ | .getLucidlinkToken => .ok (some "token")
  | .getDatastoreCredentials _ _ => .ok (some ⟨"bucket", none, none, "key", "secret"⟩)
  | .getUserSetting _ _ => .ok none
  | .listAllObjects _ _ => .ok keys
  | .ensureStructure _ => .ok (true, "")
  | .importFile _ _ => .ok (201, "")
  | .publish _ => .ok ()
  | .newS3Service _ _ _ _ => .ok ()
  | .close => .ok ()
  | .sleep => .ok ()

@[simp] theorem put_jobs (s : Db) (i : Nat) (row : Job) : (s.put i row).jobs = upd s.jobs i (some row) := rfl
@[simp] theorem put_nextId (s : Db) (i : Nat) (row : Job) : (s.put i row).nextId = s.nextId := rfl
@[simp] theorem remove_jobs (s : Db) (p : Nat → Job → Bool) (i : Nat) :
    (s.remove p).jobs i = (s.jobs i).filter fun row => !p i row := rfl
@[simp] theorem remove_nextId (s : Db) (p : Nat → Job → Bool) : (s.remove p).nextId = s.nextId := rfl
@[simp] theorem timeoutStale_nextId (s : Db) (cutoff : Nat) : (s.timeoutStale cutoff).nextId = s.nextId := rfl

theorem apply_nothing (row : Job) : ({} : JobFields).apply row = row := rfl

/-- Whether or not an UPDATE goes out, a flush leaves the row it returns. -/
theorem flush_jobs {s : Db} {i : Nat} {current : Job} (columns : JobFields) (h : s.jobs i = some current) :
    (if columns = {} then s else s.put i (columns.apply current)).jobs =
      upd s.jobs i (some (columns.apply current)) := by
  split
  · rename_i he
    subst he
    funext j
    by_cases e : j = i
    · subst e; rw [upd_same, apply_nothing, h]
    · rw [upd_ne _ _ e]
  · rfl

theorem flush_status (loaded current : Job) {fields : JobFields} {w : Status} (h : fields.status = some w) :
    ((fields.differing loaded).apply current).status = if w = loaded.status then current.status else w := by
  by_cases e : w = loaded.status <;> simp [JobFields.apply, JobFields.differing, h, e, Option.filter]

/-- What an operation can do to the tables. -/
inductive Did (s : Db) : (o : JobOp) → Except Exc o.Ret → Db → Prop
  | created {userId : Option String} {bucket keyPrefix filespaceId datastoreId : String} {jobId : Nat} :
      s.nextId ≤ jobId →
      Did s (.createJob userId bucket keyPrefix filespaceId datastoreId) (.ok jobId)
        { s.put jobId (newJob s userId bucket keyPrefix filespaceId datastoreId) with nextId := jobId + 1 }
  | got {jobId : Nat} : Did s (.getJob jobId) (.ok (s.jobs jobId)) s
  | loaded {jobId : Nat} {fields : JobFields} : Did s (.loadJob jobId fields) (.ok (s.jobs jobId)) s
  | flushed {jobId : Nat} {loaded current : Job} {fields : JobFields} : s.jobs jobId = some current →
      Did s (.flushJob jobId loaded fields) (.ok ((fields.differing loaded).apply current))
        (if fields.differing loaded = {} then s else s.put jobId ((fields.differing loaded).apply current))
  | cancelled {jobId : Nat} {userId : Option String} {row : Job} : s.jobs jobId = some row → row.userId = userId →
      Did s (.cancelJob jobId userId) (.ok true) (s.put jobId { row with status := .cancelled })
  | missed {jobId : Nat} {userId : Option String} : Did s (.cancelJob jobId userId) (.ok false) s
  | timedOut {cutoff : Nat} : Did s (.timeoutStale cutoff) (.ok (s.rowcount fun _ => Job.stale cutoff))
      (s.timeoutStale cutoff)
  | deleted {jobId : Nat} {userId : Option String} :
      Did s (.deleteForUser jobId userId)
        (.ok (decide (0 < s.rowcount fun i row => i == jobId && row.userId == userId)))
        (s.remove fun i row => i == jobId && row.userId == userId)
  | cleared {userId : Option String} :
      Did s (.clearCompletedForUser userId)
        (.ok (s.rowcount fun _ row => row.userId == userId && row.status.terminal))
        (s.remove fun _ row => row.userId == userId && row.status.terminal)
  | enqueued {jobId : Nat} {arqId : String} : arqId ≠ "" → cronId arqId = false → arqId ∉ s.issued →
      Did s (.enqueueJob jobId) (.ok arqId) { s with queue := (arqId, jobId) :: s.queue, issued := arqId :: s.issued }
  | raised {o : JobOp} {e : Exc} : Did s o (.error e) s
  | answered {o : JobOp} {r : Except Exc o.Ret} : o.outside → Did s o r s

theorem exec_did {s s' : Db} {o : JobOp} {r : Except Exc o.Ret} (h : s.exec o r = some s') : Did s o r s' := by
  rcases r with e | v
  · have : s' = s := by cases o <;> simpa [Db.exec] using h.symm
    subst this; exact .raised
  cases o with
  | createJob userId bucket keyPrefix filespaceId datastoreId =>
    simp only [Db.exec] at h
    split at h
    · cases h; exact .created ‹_›
    · cases h
  | getJob jobId =>
    simp only [Db.exec] at h
    split at h
    · cases h; subst v; exact .got
    · cases h
  | loadJob jobId fields =>
    simp only [Db.exec] at h
    split at h
    · cases h; subst v; exact .loaded
    · cases h
  | flushJob jobId loaded fields =>
    simp only [Db.exec] at h
    split at h
    · cases h
    · split at h
      · cases h; subst v; exact .flushed ‹_›
      · cases h
  | cancelJob jobId userId =>
    simp only [Db.exec] at h
    split at h
    · cases v with
      | true => cases h
      | false => cases h; exact .missed
    · rename_i row hrow
      obtain ⟨hrow, hu⟩ := Option.filter_eq_some_iff.mp hrow
      cases v with
      | true => cases h; exact .cancelled hrow (by simpa using hu)
      | false => cases h
  | timeoutStale cutoff =>
    simp only [Db.exec] at h
    split at h
    · cases h; subst v; exact .timedOut
    · cases h
  | deleteForUser jobId userId =>
    simp only [Db.exec] at h
    split at h
    · cases h; subst v; exact .deleted
    · cases h
  | clearCompletedForUser userId =>
    simp only [Db.exec] at h
    split at h
    · cases h; subst v; exact .cleared
    · cases h
  | now =>
    simp only [Db.exec] at h
    split at h
    · cases h; exact .answered trivial
    · cases h
  | enqueueJob jobId =>
    simp only [Db.exec] at h
    split at h
    · rename_i hc; cases h; exact .enqueued hc.1 hc.2.1 hc.2.2
    · cases h
  | _ => cases h; exact .answered trivial

end Connect.Worker
