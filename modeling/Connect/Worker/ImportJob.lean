/-
  Connect.Worker.ImportJob — `import_job` (services/worker.py) and the requests it shares
  its table with: `JobQueue.add_job` and `cancel_job`, the delete and clear routes, and the
  stale-job cron.

  `jobSystem` puts them together: `import_job` and `timeout_stale_jobs` run behind
  `@idempotent`, a message of the ARQ queue is delivered any number of times until it is
  acknowledged, and an operator may queue a job again under a fresh ARQ id.
-/

import Connect.Worker.AtMostOnce
import Connect.Worker.Jobs

namespace Connect.Worker

open Await

abbrev JobProg := Prog jobSig Exc

/-! ## Operations -/

def createJob (userId : Option String) (bucket keyPrefix filespaceId datastoreId : String) : JobProg Nat :=
  @Prog.await jobSig Exc (JobOp.createJob userId bucket keyPrefix filespaceId datastoreId)

def getJob (jobId : Nat) : JobProg (Option Job) := @Prog.await jobSig Exc (JobOp.getJob jobId)

def loadJob (jobId : Nat) (fields : JobFields) : JobProg (Option Job) :=
  @Prog.await jobSig Exc (JobOp.loadJob jobId fields)

def flushJob (jobId : Nat) (loaded : Job) (fields : JobFields) : JobProg Job :=
  @Prog.await jobSig Exc (JobOp.flushJob jobId loaded fields)

def publish (line : LogLine) : JobProg Unit := @Prog.await jobSig Exc (JobOp.publish line)

def importFile (s3Key llPath : String) : JobProg (Nat × String) :=
  @Prog.await jobSig Exc (JobOp.importFile s3Key llPath)

def ensureStructure (fullKey : String) : JobProg (Bool × String) :=
  @Prog.await jobSig Exc (JobOp.ensureStructure fullKey)

def listAllObjects (bucket keyPrefix : String) : JobProg (List String) :=
  @Prog.await jobSig Exc (JobOp.listAllObjects bucket keyPrefix)

/-- `AsyncRepository.update`, with the commit that follows it. -/
def update (jobId : Nat) (fields : JobFields) : JobProg (Option Job) := do
  match ← loadJob jobId fields with
  | none => return none
  | some instance_ => some <$> flushJob jobId instance_ fields

def updateStatus (jobId : Nat) (status : Status) (fields : JobFields) : JobProg (Option Job) :=
  update jobId { fields with status := some status }

def publishLog (ctx : Ctx) (line : LogLine) : JobProg Unit := if ctx.redis then publish line else return ()

/-- `asyncio.gather(*ps, return_exceptions=True)`: what each came to, in order. A
    cancellation of the caller goes through. -/
def gather {α : Type} : List (JobProg α) → JobProg (List (Except Exc α))
  | [] => return []
  | p :: ps => do
    match ← p.attempt with
    | .error .cancelled => .raise .cancelled
    | r => do
      let rs ← gather ps
      return r :: rs

/-! ## import_job -/

structure JobDict where
  id : Nat
  status : Status
  bucket : String
  keyPrefix : String
  filespaceId : String
  datastoreId : String
  userId : Option String
  deriving DecidableEq, Repr

def getJobDict (jobId : Nat) : JobProg (Option JobDict) := do
  let row ← getJob jobId
  return row.map fun row =>
    { id := jobId, status := row.status, bucket := row.bucket, keyPrefix := row.keyPrefix,
      filespaceId := row.filespaceId, datastoreId := row.datastoreId, userId := row.userId }

/-- The dictionaries `import_job` returns. -/
inductive JobResult where
  | error (message : String)
  | failed (message : String)
  | noFiles
  | cancelledEarly
  | cancelled (completed failed : Nat)
  | completed (completed failed new skipped : Nat)
  deriving DecidableEq, Repr

/-- `result["status"]`. -/
def JobResult.status : JobResult → String
  | .error _ => "error"
  | .failed _ => "failed"
  | .noFiles | .completed _ _ _ _ => "completed"
  | .cancelledEarly | .cancelled _ _ => "cancelled"

structure Resolved where
  token : String
  dsCred : DsCred
  apiHost : String
  deriving DecidableEq, Repr

/-- `load_ll_token`, which only a job with an owner reaches. -/
def loadLlToken : Option String → JobProg (Option String)
  | none => return none
  | some userId => @Prog.await jobSig Exc (JobOp.loadLlToken userId)

/-- `if not token`: the token of the secrets file, the owner's if there is one. -/
def orLegacyToken (userId token : Option String) : JobProg (Option String) :=
  if (truthy token).isSome then return token
  else
    match userId with
    | none => @Prog.await jobSig Exc JobOp.getLucidlinkToken
    | some userId => @Prog.await jobSig Exc (JobOp.getUserToken userId)

def getDatastoreCredentials (datastoreId : String) (userId : Option String) : JobProg (Option DsCred) :=
  @Prog.await jobSig Exc (JobOp.getDatastoreCredentials datastoreId userId)

def getUserSetting : Option String → String → JobProg (Option String)
  | none, _ => return none
  | some userId, key => @Prog.await jobSig Exc (JobOp.getUserSetting userId key)

def resolveCredentials (job : JobDict) : JobProg Resolved := do
  let token ← loadLlToken job.userId
  let token ← orLegacyToken job.userId token
  match truthy token with
  | none => .raise (.exception "No API token available - please reconnect in web UI")
  | some token => do
    let dsCred ← getDatastoreCredentials job.datastoreId job.userId
    let apiHost ← getUserSetting job.userId "api_host"
    match dsCred with
    | none => .raise (.exception s!"DataStore credentials not found for {job.datastoreId}")
    | some dsCred => return ⟨token, dsCred, (truthy apiHost).getD ""⟩

def batchSize : Nat := 25

structure Progress where
  completed : Nat
  failed : Nat
  totalNew : Nat
  totalSkipped : Nat
  deriving DecidableEq, Repr

structure Tally where
  new : Nat
  skipped : Nat
  failed : Nat
  firstError : Option String
  deriving DecidableEq, Repr

def Tally.fail (t : Tally) (error : String) : Tally :=
  { t with failed := t.failed + 1, firstError := some (t.firstError.getD error) }

/-- What one outcome of `import_file` counts as. -/
def Tally.add (t : Tally) : Except Exc (Nat × String) → Tally
  | .error e => t.fail s!"Exception: {e.text}"
  | .ok (code, errorMsg) =>
    if code = 200 ∨ code = 201 then { t with new := t.new + 1 }
    else if code = 409 then { t with skipped := t.skipped + 1 }
    else if code = 400 ∧ inLower "already exists" errorMsg = true then { t with skipped := t.skipped + 1 }
    else t.fail s!"HTTP {code}: {pyTake 200 errorMsg}"

def tally (results : List (Except Exc (Nat × String))) : Tally := results.foldl Tally.add ⟨0, 0, 0, none⟩

def Progress.add (p : Progress) (t : Tally) : Progress :=
  { completed := p.completed + (t.new + t.skipped), failed := p.failed + t.failed,
    totalNew := p.totalNew + t.new, totalSkipped := p.totalSkipped + t.skipped }

/-- `current and current.status == "cancelled"`. -/
def isCancelled (current : Option Job) : Bool := current.any (·.status == .cancelled)

def llPath (bucketName key : String) : String := "/" ++ bucketName ++ "/" ++ key

def runBatch (bucketName : String) (batch : List String) : JobProg (List (Except Exc (Nat × String))) :=
  gather (batch.map fun key => importFile key (llPath bucketName key))

def batchLoop (ctx : Ctx) (jobId : Nat) (bucketName : String) (keys : List String) :
    List Nat → Progress → JobProg Progress
  | [], p => return p
  | i :: rest, p => do
    let current ← getJob jobId
    if isCancelled current then return p
    else do
      let results ← runBatch bucketName (slice keys i batchSize)
      let t := tally results
      let p := p.add t
      publishLog ctx (.progress (p.completed + p.failed) keys.length p.totalNew p.totalSkipped p.failed t.firstError)
      let _ ← updateStatus jobId .running { completedFiles := some p.completed, failedFiles := some p.failed }
      @Prog.await jobSig Exc JobOp.sleep
      batchLoop ctx jobId bucketName keys rest p

/-- The folders of the keys and the bucket folder, shortest first. -/
def sortedDirs (bucketName : String) (keys : List String) : List String :=
  let dirs := (keys.map dirname).filter (· != "")
  sortedByLen (pySet (bucketName :: dirs.map fun d => bucketName ++ "/" ++ d))

def logFolder (ctx : Ctx) (folder : String) : Bool × String → JobProg Unit
  | (true, _) => return ()
  | (false, error) => publishLog ctx (.folderFailed folder error)

def createFolders (ctx : Ctx) : List String → JobProg Unit
  | [] => return ()
  | d :: ds => do
    let result ← ensureStructure (d ++ "/dummy_file")
    logFolder ctx d result
    createFolders ctx ds

/-- After the loop: the final status read and write. -/
def finishJob (ctx : Ctx) (jobId total : Nat) (p : Progress) : JobProg JobResult := do
  let current ← getJob jobId
  if isCancelled current then do
    publishLog ctx (.cancelledAt p.completed total)
    return .cancelled p.completed p.failed
  else do
    let _ ← updateStatus jobId .completed {}
    publishLog ctx (.complete p.totalNew p.totalSkipped p.failed)
    return .completed p.completed p.failed p.totalNew p.totalSkipped

/-- From the total write on, for at least one key. -/
def importKeys (ctx : Ctx) (job : JobDict) (jobId : Nat) (keys : List String) : JobProg JobResult := do
  let _ ← updateStatus jobId .running { totalFiles := some keys.length }
  publishLog ctx (.found keys.length)
  let dirs := sortedDirs job.bucket keys
  publishLog ctx (.creating dirs.length)
  createFolders ctx dirs
  let current ← getJob jobId
  if isCancelled current then do
    publishLog ctx .cancelled
    return .cancelledEarly
  else do
    publishLog ctx .importing
    let p ← batchLoop ctx jobId job.bucket keys (pyRange keys.length batchSize) ⟨0, 0, 0, 0⟩
    finishJob ctx jobId keys.length p

def noKeys (ctx : Ctx) (jobId : Nat) : JobProg JobResult := do
  publishLog ctx .noFiles
  let _ ← updateStatus jobId .completed { totalFiles := some 0 }
  return .noFiles

def importJobBody (ctx : Ctx) (job : JobDict) (jobId : Nat) (r : Resolved) : JobProg JobResult := do
  @Prog.await jobSig Exc (JobOp.newS3Service r.dsCred.accessKey r.dsCred.secretKey
    ((truthy r.dsCred.region).getD "us-east-1") r.dsCred.endpoint)
  publishLog ctx (.usingFilespace (pyTake 8 job.filespaceId))
  publishLog ctx .scanning
  let keys ← listAllObjects job.bucket job.keyPrefix
  if keys.length = 0 then noKeys ctx jobId else importKeys ctx job jobId keys

/-- `except Exception as e:` of `import_job`. -/
def jobFailed (ctx : Ctx) (jobId : Nat) (e : Exc) : JobProg JobResult :=
  if e.isException then do
    publishLog ctx (.failed e.text)
    let _ ← updateStatus jobId .failed { errorMessage := some e.text }
    return .failed e.text
  else .raise e

/-- The `try` of `import_job`; there is a client to close once the credentials are there. -/
def tryImport (ctx : Ctx) (jobId : Nat) (job : JobDict) : JobProg JobResult := do
  match ← (resolveCredentials job).attempt with
  | .error e => jobFailed ctx jobId e
  | .ok r =>
    ((importJobBody ctx job jobId r).catching (jobFailed ctx jobId)).finally_ (@Prog.await jobSig Exc JobOp.close)

def importJob (ctx : Ctx) (jobId : Nat) : JobProg JobResult := do
  match ← getJobDict jobId with
  | none => do
    publishLog ctx (.notFound jobId)
    return .error s!"Job {jobId} not found"
  | some job => do
    let _ ← updateStatus jobId .running {}
    publishLog ctx (.started job.keyPrefix)
    tryImport ctx jobId job

/-! ## Operations of a run -/

/-- What `import_job` ever passes to `update`. -/
def WorkerFields (fields : JobFields) : Prop :=
  (∃ st, fields.status = some st ∧ (st = .running ∨ st = .completed ∨ st = .failed)) ∧
    fields.startedAt = none ∧ fields.completedAt = none

/-- The operations of `import_job` on job `jobId` that do not import. -/
def QuietOp (jobId : Nat) : JobOp → Prop
  | .getJob i => i = jobId
  | .loadJob i fields => i = jobId ∧ WorkerFields fields
  | .flushJob i _ fields => i = jobId ∧ WorkerFields fields
  | .createJob _ _ _ _ _ | .cancelJob _ _ | .timeoutStale _ | .deleteForUser _ _ | .clearCompletedForUser _ | .now
  | .enqueueJob _ | .importFile _ _ => False
  | _ => True

def WorkerOp (jobId : Nat) (o : JobOp) : Prop := QuietOp jobId o ∨ ∃ key path, o = .importFile key path

theorem quiet_worker {jobId : Nat} (o : JobOp) (h : QuietOp jobId o) : WorkerOp jobId o := Or.inl h

section Uses

variable {jobId : Nat} {ctx : Ctx}

theorem uses_op {P : JobOp → Prop} (o : JobOp) (h : P o) : (@Prog.await jobSig Exc o).Uses P := .await h

theorem uses_publishLog {P : JobOp → Prop} {line : LogLine} (h : P (.publish line)) :
    (publishLog ctx line).Uses P := by
  unfold publishLog
  split
  · exact .await h
  · trivial

theorem uses_update_ops {P : JobOp → Prop} {fields : JobFields} (hload : P (.loadJob jobId fields))
    (hflush : ∀ row, P (.flushJob jobId row fields)) : (update jobId fields).Uses P := by
  refine .bind (.await hload) fun row => ?_
  cases row with
  | none => trivial
  | some loaded => exact .bind (.await (hflush loaded)) fun _ => trivial

theorem uses_update {fields : JobFields} (h : WorkerFields fields) : (update jobId fields).Uses (QuietOp jobId) :=
  uses_update_ops ⟨rfl, h⟩ fun _ => ⟨rfl, h⟩

theorem uses_updateStatus {st : Status} {fields : JobFields} (hst : st = .running ∨ st = .completed ∨ st = .failed)
    (h : fields.startedAt = none ∧ fields.completedAt = none) : (updateStatus jobId st fields).Uses (QuietOp jobId) :=
  uses_update ⟨⟨st, rfl, hst⟩, h⟩

theorem uses_gather {α : Type} {P : JobOp → Prop} {ps : List (JobProg α)} (h : ∀ p ∈ ps, p.Uses P) :
    (gather ps).Uses P := by
  induction ps with
  | nil => trivial
  | cons p ps ih =>
    refine .bind (h p List.mem_cons_self).attempt fun r => ?_
    have hrest : ∀ r, (gather ps >>= fun rs => pure (r :: rs)).Uses P := fun r =>
      .bind (ih fun q hq => h q (List.mem_cons_of_mem _ hq)) fun _ => trivial
    rcases r with (_ | _ | _) | _
    · exact hrest _
    · exact hrest _
    · trivial
    · exact hrest _

theorem uses_runBatch (bucketName : String) (batch : List String) :
    (runBatch bucketName batch).Uses (WorkerOp jobId) := by
  refine uses_gather fun p hp => ?_
  obtain ⟨key, _, rfl⟩ := List.mem_map.mp hp
  exact .await (Or.inr ⟨_, _, rfl⟩)

theorem uses_batchLoop (bucketName : String) (keys : List String) (is : List Nat) (p : Progress) :
    (batchLoop ctx jobId bucketName keys is p).Uses (WorkerOp jobId) := by
  induction is generalizing p with
  | nil => trivial
  | cons i is ih =>
    refine .bind (.await (Or.inl rfl)) fun current => ?_
    split
    · trivial
    · refine .bind (uses_runBatch bucketName _) fun results => ?_
      refine .bind (uses_publishLog (Or.inl trivial)) fun _ => ?_
      refine .bind ((uses_updateStatus (Or.inl rfl) ⟨rfl, rfl⟩).mono quiet_worker) fun _ => ?_
      exact .bind (.await (Or.inl trivial)) fun _ => ih _

theorem uses_createFolders (ds : List String) : (createFolders ctx ds).Uses (QuietOp jobId) := by
  induction ds with
  | nil => trivial
  | cons d ds ih =>
    refine .bind (.await trivial) fun result => .bind ?_ fun _ => ih
    obtain ⟨_ | _, error⟩ := result
    · exact uses_publishLog trivial
    · trivial

theorem uses_finishJob (total : Nat) (p : Progress) : (finishJob ctx jobId total p).Uses (QuietOp jobId) := by
  refine .bind (.await rfl) fun current => ?_
  split
  · exact .bind (uses_publishLog trivial) fun _ => trivial
  · exact .bind (uses_updateStatus (Or.inr (Or.inl rfl)) ⟨rfl, rfl⟩)
      fun _ => .bind (uses_publishLog trivial) fun _ => trivial

theorem uses_importKeys (job : JobDict) (keys : List String) :
    (importKeys ctx job jobId keys).Uses (WorkerOp jobId) := by
  refine .bind ((uses_updateStatus (Or.inl rfl) ⟨rfl, rfl⟩).mono quiet_worker) fun _ => ?_
  refine .bind (uses_publishLog (Or.inl trivial)) fun _ => .bind (uses_publishLog (Or.inl trivial)) fun _ => ?_
  refine .bind ((uses_createFolders _).mono quiet_worker) fun _ => .bind (.await (Or.inl rfl)) fun current => ?_
  split
  · exact .bind (uses_publishLog (Or.inl trivial)) fun _ => trivial
  · refine .bind (uses_publishLog (Or.inl trivial)) fun _ => .bind (uses_batchLoop _ _ _ _) fun p => ?_
    exact (uses_finishJob _ p).mono quiet_worker

theorem uses_noKeys : (noKeys ctx jobId).Uses (QuietOp jobId) :=
  .bind (uses_publishLog trivial) fun _ => .bind (uses_updateStatus (Or.inr (Or.inl rfl)) ⟨rfl, rfl⟩) fun _ => trivial

theorem uses_importJobBody (job : JobDict) (r : Resolved) :
    (importJobBody ctx job jobId r).Uses (WorkerOp jobId) := by
  refine .bind (.await (Or.inl trivial)) fun _ => .bind (uses_publishLog (Or.inl trivial)) fun _ => ?_
  refine .bind (uses_publishLog (Or.inl trivial)) fun _ => .bind (.await (Or.inl trivial)) fun keys => ?_
  split
  · exact uses_noKeys.mono quiet_worker
  · exact uses_importKeys job keys

theorem uses_jobFailed (e : Exc) : (jobFailed ctx jobId e).Uses (QuietOp jobId) := by
  unfold jobFailed
  split
  · exact .bind (uses_publishLog trivial)
      fun _ => .bind (uses_updateStatus (Or.inr (Or.inr rfl)) ⟨rfl, rfl⟩) fun _ => trivial
  · trivial

theorem uses_resolveCredentials (job : JobDict) : (resolveCredentials job).Uses (QuietOp jobId) := by
  refine .bind ?_ fun token => .bind ?_ fun token => ?_
  · cases job.userId with
    | none => trivial
    | some userId => exact .await trivial
  · unfold orLegacyToken
    split
    · trivial
    · cases job.userId with
      | none => exact .await trivial
      | some userId => exact .await trivial
  · cases truthy token with
    | none => trivial
    | some token =>
      refine .bind (.await trivial) fun dsCred => .bind ?_ fun apiHost => ?_
      · cases job.userId with
        | none => trivial
        | some userId => exact .await trivial
      · cases dsCred <;> trivial

theorem uses_tryImport (job : JobDict) : (tryImport ctx jobId job).Uses (WorkerOp jobId) := by
  refine .bind ((uses_resolveCredentials job).mono quiet_worker).attempt fun x => ?_
  cases x with
  | error e => exact (uses_jobFailed e).mono quiet_worker
  | ok r =>
    exact .finally_ (.catching (uses_importJobBody job r) fun e => (uses_jobFailed e).mono quiet_worker)
      (.await (Or.inl trivial))

theorem uses_importJob : (importJob ctx jobId).Uses (WorkerOp jobId) := by
  refine .bind (.bind (.await (Or.inl rfl)) fun _ => trivial) fun job => ?_
  cases job with
  | none => exact .bind (uses_publishLog (Or.inl trivial)) fun _ => trivial
  | some job =>
    refine .bind ((uses_updateStatus (Or.inl rfl) ⟨rfl, rfl⟩).mono quiet_worker) fun _ => ?_
    exact .bind (uses_publishLog (Or.inl trivial)) fun _ => uses_tryImport job

end Uses

/-! ## The other tasks -/

/-- `JobQueue.add_job`; `pool` when there is a connection to Valkey. -/
def addJob (userId : Option String) (bucket keyPrefix filespaceId datastoreId : String) (pool : Bool) :
    JobProg Nat := do
  let jobId ← createJob (truthy userId) bucket keyPrefix filespaceId datastoreId
  if pool then do
    let _ ← @Prog.await jobSig Exc (JobOp.enqueueJob jobId)
    return jobId
  else return jobId

def cancelJob (jobId : Nat) (userId : Option String) : JobProg Bool :=
  @Prog.await jobSig Exc (JobOp.cancelJob jobId (truthy userId))

/-- The DELETE /api/jobs/{id} route. -/
def deleteJob (jobId : Nat) (userId : Option String) : JobProg Bool :=
  @Prog.await jobSig Exc (JobOp.deleteForUser jobId (truthy userId))

/-- The POST /api/jobs/clear route. -/
def clearJobs (userId : Option String) : JobProg Nat :=
  @Prog.await jobSig Exc (JobOp.clearCompletedForUser (truthy userId))

/-- One hour of the clock, which counts microseconds. -/
def hour : Nat := 3600 * 1000000

def currentTime : JobProg Nat := @Prog.await jobSig Exc JobOp.now

def timeoutStale (cutoff : Nat) : JobProg Nat := @Prog.await jobSig Exc (JobOp.timeoutStale cutoff)

def timeoutStaleJobs (ctx : Ctx) : JobProg Nat := do
  let now ← currentTime
  let timedOut ← timeoutStale (now - hour)
  if 0 < timedOut then do
    publishLog ctx (.timedOut timedOut)
    return timedOut
  else return timedOut

/-! ## The system -/

inductive JobTask where
  | addJob (userId : Option String) (bucket keyPrefix filespaceId datastoreId : String) (pool : Bool)
  | importJob (ctx : Ctx) (jobId : Nat)
  | cancelJob (jobId : Nat) (userId : Option String)
  | deleteJob (jobId : Nat) (userId : Option String)
  | clearJobs (userId : Option String)
  | timeoutStaleJobs (ctx : Ctx)
  deriving DecidableEq, Repr

inductive Reply where
  | added (jobId : Nat)
  | imported (result : JobResult)
  | cancelled (updated : Bool)
  | deleted (removed : Bool)
  | cleared (rows : Nat)
  | timedOut (rows : Nat)
  deriving DecidableEq, Repr

inductive JobEnv where
  | tick (n : Nat)
  /-- A worker reports the message done. -/
  | ack (arqId : String)
  /-- An operator queues a job again. -/
  | requeue (arqId : String) (jobId : Nat)

def Db.env (s : Db) : JobEnv → Option Db
  | .tick n => some { s with now := s.now + n }
  | .ack arqId => some { s with queue := s.queue.filter (·.1 != arqId) }
  | .requeue arqId jobId =>
    if arqId ≠ "" ∧ cronId arqId = false ∧ arqId ∉ s.issued then
      some { s with queue := (arqId, jobId) :: s.queue, issued := arqId :: s.issued }
    else none

theorem env_jobs {s s' : Db} {e : JobEnv} (h : s.env e = some s') :
    s'.jobs = s.jobs ∧ s'.nextId = s.nextId ∧ s'.touched = s.touched ∧ s.now ≤ s'.now := by
  cases e with
  | tick n => cases h; exact ⟨rfl, rfl, rfl, Nat.le_add_right _ _⟩
  | ack arqId => cases h; exact ⟨rfl, rfl, rfl, Nat.le_refl _⟩
  | requeue arqId jobId =>
    simp only [Db.env] at h
    split at h
    · cases h; exact ⟨rfl, rfl, rfl, Nat.le_refl _⟩
    · cases h

def JobTask.code : JobTask → JobProg Reply
  | .addJob userId bucket keyPrefix filespaceId datastoreId pool =>
    .added <$> Worker.addJob userId bucket keyPrefix filespaceId datastoreId pool
  | .importJob ctx jobId => .imported <$> Worker.importJob ctx jobId
  | .cancelJob jobId userId => .cancelled <$> Worker.cancelJob jobId userId
  | .deleteJob jobId userId => .deleted <$> Worker.deleteJob jobId userId
  | .clearJobs userId => .cleared <$> Worker.clearJobs userId
  | .timeoutStaleJobs ctx => .timedOut <$> Worker.timeoutStaleJobs ctx

/-- The operations of a task. -/
def TaskOp : JobTask → JobOp → Prop
  | .addJob userId bucket keyPrefix filespaceId datastoreId _, o =>
    o = .createJob (truthy userId) bucket keyPrefix filespaceId datastoreId ∨ ∃ jobId, o = .enqueueJob jobId
  | .importJob _ jobId, o => WorkerOp jobId o
  | .cancelJob jobId userId, o => o = .cancelJob jobId (truthy userId)
  | .deleteJob jobId userId, o => o = .deleteForUser jobId (truthy userId)
  | .clearJobs userId, o => o = .clearCompletedForUser (truthy userId)
  | .timeoutStaleJobs _, o => o = .now ∨ (∃ cutoff, o = .timeoutStale cutoff) ∨ ∃ line, o = .publish line

theorem uses_code (t : JobTask) : t.code.Uses (TaskOp t) := by
  cases t with
  | addJob userId bucket keyPrefix filespaceId datastoreId pool =>
    refine .bind (.bind (.await (Or.inl rfl)) fun jobId => ?_) fun _ => trivial
    split
    · exact .bind (.await (Or.inr ⟨_, rfl⟩)) fun _ => trivial
    · trivial
  | importJob ctx jobId => exact .bind uses_importJob fun _ => trivial
  | cancelJob jobId userId => exact .bind (.await rfl) fun _ => trivial
  | deleteJob jobId userId => exact .bind (.await rfl) fun _ => trivial
  | clearJobs userId => exact .bind (.await rfl) fun _ => trivial
  | timeoutStaleJobs ctx =>
    refine .bind (.bind (.await (Or.inl rfl)) fun now => .bind (.await (Or.inr (Or.inl ⟨_, rfl⟩)))
      fun n => ?_) fun _ => trivial
    split
    · exact .bind (uses_publishLog (Or.inr (Or.inr ⟨_, rfl⟩))) fun _ => trivial
    · trivial

/-- The tasks without `@idempotent`, from empty tables. -/
abbrev jobs : System jobSig Exc Reply where
  State := Db
  Env := JobEnv
  Task := JobTask
  init s := s.jobs = (fun _ => none) ∧ s.queue = []
  exec _ s o r := s.exec o r
  env := Db.env
  starts s t :=
    match t with
    | .importJob ctx jobId => s.queue.any fun m => some m.1 == ctx.jobId && m.2 == jobId
    | .timeoutStaleJobs ctx => ctx.jobId.any cronId
    | _ => true
  code _ t := t.code

/-- The tasks behind `@idempotent`. -/
def wrapped : JobTask → Option Ctx
  | .importJob ctx _ => some ctx
  | .timeoutStaleJobs ctx => some ctx
  | _ => none

abbrev jobSystem : System (TaskSig jobSig) Exc (Option Reply) := guarded jobs wrapped fun t => t = fun _ => none

/-! ## Runs in which every call succeeds -/

/-- Every statement answers for the tables, every service accepts, and the bucket holds `keys`. -/
def obey (keys : List String) (s : jobSystem.State) : (o : (TaskSig jobSig).Op) → Except Exc ((TaskSig jobSig).Ret o)
  | .inl (.markProcessed jobId _ _) => .ok (s.1 jobId).isNone
  | .inl (.markFailed _) => .ok ()
  | .inl (.enter _) => .ok ()
  | .inr o => s.2.answer keys o

/-- The keys `k0` to `k29`: two batches. -/
def thirtyKeys : List String := (List.range 30).map fun i => "k" ++ toString i

def noJobs : jobSystem.State :=
  (fun _ => none, { now := 0, nextId := 0, jobs := fun _ => none, touched := fun _ => 0, queue := [], issued := [] })

end Connect.Worker
