/-
  Connect.Sqs.Console — the requests that add, pause, resume and delete a queue (main.py,
  /api/sqs/queues), beside the sweeps of the cron.

  A sweep reads the active queues once and then polls one after the other, so a queue that
  is paused or deleted meanwhile is still polled by the sweeps that listed it. Proved, over
  every run of requests and sweeps:
  - `polled_listed`: a queue is only polled by a sweep that listed it.
  - `paused_unpolled`: once its owner paused or deleted a queue, a poll of it comes from a
    sweep that had listed it before, or follows a resume by the owner.
  - `status_owned`: the status and the existence of a row change in requests of its owner
    only.

  The calls on AWS answer as they please, and so do the credentials. An S3NotificationError
  and, where it is caught by name, an SQSError is an answer; `cleanup_errors` goes to the
  log only.
-/

import Mathlib.Data.List.Nodup
import Connect.Await.Lift
import Connect.Sqs.Isolated
import Connect.Sqs.QueueUrl
import Connect.Sqs.Sweep

namespace Connect.Sqs

open Await
open Tfvars (strip)

structure QueueFields where
  queueUrl : String
  queueArn : String
  name : String
  region : String
  datastoreId : String
  filespaceId : String
  importPrefix : String
  userId : Option String
  deriving DecidableEq, Repr

def QueueFields.queue (f : QueueFields) (id : Nat) : SqsQueue :=
  ⟨id, f.queueUrl, f.name, f.region, f.datastoreId, f.filespaceId, f.importPrefix, f.userId⟩

inductive ConsoleOp where
  /-- `(filespace_id, bucket_name)` of the row of datastore_credentials. -/
  | getForDatastoreUser (datastoreId : String) (userId : Option String)
  | createAwsQueue (queueName region : String)
  | configureQueueForS3 (queueUrl bucketName : String)
  | addSqsNotification (bucketName queueArn notificationId : String)
  | validateQueueUrl (region queueUrl : String)
  | removeSqsNotification (bucketName queueArn : String)
  | deleteAwsQueue (queueUrl : String)
  /-- The INSERT with its commit. -/
  | createQueue (fields : QueueFields)
  /-- The UPDATE with its commit. -/
  | updateStatusForUser (queueId : Nat) (userId : Option String) (active : Bool) (errorMessage : Option String)
  /-- The DELETE with its commit. -/
  | deleteForUser (queueId : Nat) (userId : Option String)
  /-- The row with its queue_arn. -/
  | getForUser (queueId : Nat) (userId : Option String)
  | listForUser (userId : Option String)
  deriving DecidableEq, Repr

def ConsoleOp.Ret : ConsoleOp → Type
  | .getForDatastoreUser _ _ => Option (String × String)
  | .createAwsQueue _ _ | .validateQueueUrl _ _ => QueueInfo
  | .configureQueueForS3 _ _ => Bool
  | .addSqsNotification _ _ _ | .removeSqsNotification _ _ | .deleteAwsQueue _ => Except String Bool
  | .createQueue _ => Nat
  | .updateStatusForUser _ _ _ _ | .deleteForUser _ _ => Bool
  | .getForUser _ _ => Option (SqsQueue × Option String)
  | .listForUser _ => List SqsQueue

abbrev consoleOps : Sig := ⟨ConsoleOp, ConsoleOp.Ret⟩

abbrev consoleSig : Sig := consoleOps.sum sqsSig

abbrev ConsoleProg := Prog consoleSig Exc

abbrev ask (o : ConsoleOp) : ConsoleProg o.Ret := @Prog.left consoleOps sqsSig Exc o

/-! ## Requests -/

inductive ConsoleReply where
  | swept (result : PollResult)
  /-- The list of the user's queues, with `success` or `error`. -/
  | queueList (queues : List SqsQueue) (note : Option (Except String String))
  /-- The form again, with the error. -/
  | queueModal (error : String)

def getSqsCredentials (userId : Option String) : ConsoleProg (Option SqsCreds) :=
  (await (.getSqsCredentials userId)).lift

def queueList (userId : Option String) (note : Option (Except String String)) : ConsoleProg ConsoleReply := do
  let queues : List SqsQueue ← ask (.listForUser userId)
  return .queueList queues note

def pauseSqsQueue (queueId : Nat) (userId : Option String) : ConsoleProg ConsoleReply := do
  let _ ← ask (.updateStatusForUser queueId userId false none)
  let _ ← ask (.getForUser queueId userId)
  queueList userId none

def resumeSqsQueue (queueId : Nat) (userId : Option String) : ConsoleProg ConsoleReply := do
  let _ ← ask (.updateStatusForUser queueId userId true (some ""))
  let _ ← ask (.getForUser queueId userId)
  queueList userId none

/-- The bucket's notification, where the row tells the bucket and the queue. -/
def cleanupNotification (queue : SqsQueue) (queueArn : Option String) (userId : Option String) :
    ConsoleProg (List String) :=
  match truthy queueArn with
  | none => return []
  | some queueArn =>
    if queue.datastoreId = "" then return []
    else do
      let dsCred : Option (String × String) ← ask (.getForDatastoreUser queue.datastoreId userId)
      match dsCred with
      | none => return []
      | some (_, bucketName) =>
        if bucketName = "" then return []
        else do
          let removed : Except String Bool ← ask (.removeSqsNotification bucketName queueArn)
          match removed with
          | .error e => return ["S3 notification: " ++ e]
          | .ok _ => return []

/-- `cleanup_errors`. -/
def cleanup (queue : SqsQueue) (queueArn userId : Option String) (creds : Option SqsCreds) :
    ConsoleProg (List String) :=
  match creds with
  | none => return []
  | some creds =>
    if queue.queueUrl = "" ∨ creds.accessKey = "" ∨ creds.secretKey = "" then return []
    else do
      let errors ← cleanupNotification queue queueArn userId
      let deleted : Except String Bool ← ask (.deleteAwsQueue queue.queueUrl)
      match deleted with
      | .error e => return errors ++ ["SQS queue: " ++ e]
      | .ok _ => return errors

def deleteSqsQueue (queueId : Nat) (userId : Option String) : ConsoleProg ConsoleReply := do
  let found : Option (SqsQueue × Option String) ← ask (.getForUser queueId userId)
  match found with
  | none => queueList userId (some (.error "Queue not found"))
  | some (queue, queueArn) => do
    let creds ← getSqsCredentials userId
    let _ ← cleanup queue queueArn userId creds
    let _ ← ask (.deleteForUser queueId userId)
    queueList userId (some (.ok ("Queue '" ++ queue.name ++ "' deleted")))

structure QueueForm where
  mode : String := "create"
  queueName : Option String := none
  queueUrl : Option String := none
  queueRegion : String := "us-east-1"
  datastoreId : String
  importPrefix : String := ""
  configureS3Policy : Option String := none
  deriving DecidableEq, Repr

def raises {α : Type} (text : String) : ConsoleProg α := .raise (.exception text)

/-- `^[a-zA-Z0-9_-]+$`; `$` also stands before a last newline. -/
def validQueueName (name : String) : Bool :=
  let cs := name.toList
  let cs := if cs.getLast? = some '\n' then cs.dropLast else cs
  !cs.isEmpty && cs.all inQueueName

/-- The branch that creates the queue in AWS. A refused notification does not stop it. -/
def newAwsQueue (form : QueueForm) (bucketName : String) : ConsoleProg QueueInfo :=
  match truthy form.queueName with
  | none => raises "Queue name is required"
  | some queueName =>
    if validQueueName queueName = false then
      raises "Queue name can only contain alphanumeric characters, hyphens, and underscores"
    else do
      let info : QueueInfo ← ask (.createAwsQueue queueName form.queueRegion)
      if form.configureS3Policy = some "true" ∧ bucketName ≠ "" then do
        let _ ← ask (.configureQueueForS3 info.url bucketName)
        let _ ← ask (.addSqsNotification bucketName info.arn ("LucidLink-" ++ queueName))
        return info
      else return info

/-- The branch for a queue that exists. -/
def existingAwsQueue (form : QueueForm) : ConsoleProg QueueInfo :=
  match truthy form.queueUrl with
  | none => raises "Queue URL or ARN is required"
  | some queueUrl =>
    match truthy (normalizeQueueInput queueUrl) with
    | none => raises "Invalid queue URL or ARN format"
    | some url => ask (.validateQueueUrl ((regionOf url).getD form.queueRegion) url)

/-- The `try` block of `add_sqs_queue`. -/
def tryAddQueue (form : QueueForm) (userId : Option String) : ConsoleProg ConsoleReply := do
  match ← getSqsCredentials userId with
  | none => raises "SQS credentials not configured"
  | some creds =>
    if creds.accessKey = "" ∨ creds.secretKey = "" then raises "Invalid SQS credentials"
    else do
      let dsCred : Option (String × String) ← ask (.getForDatastoreUser form.datastoreId userId)
      match dsCred with
      | none => raises "DataStore credentials not found. Please add credentials in Settings first."
      | some (filespaceId, bucketName) => do
        let info ← if form.mode = "create" then newAwsQueue form bucketName else existingAwsQueue form
        let _ ← ask (.createQueue ⟨info.url, info.arn, info.name, info.region, form.datastoreId, filespaceId,
          String.ofList (strip form.importPrefix.toList), userId⟩)
        let action := if form.mode = "create" then "created" else "added"
        queueList userId (some (.ok ("Queue '" ++ info.name ++ "' " ++ action ++ " successfully")))

def addSqsQueue (form : QueueForm) (userId : Option String) : ConsoleProg ConsoleReply :=
  (tryAddQueue form userId).catching fun
    | .sqsError text => .ret (.queueModal ("SQS error: " ++ text))
    | .exception text => .ret (.queueModal text)
    | .cancelled => .raise .cancelled

inductive ConsoleTask where
  | sweep
  | add (form : QueueForm) (userId : Option String)
  | pause (queueId : Nat) (userId : Option String)
  | resume (queueId : Nat) (userId : Option String)
  | delete (queueId : Nat) (userId : Option String)
  deriving DecidableEq, Repr

/-- Whose request it is. -/
def ConsoleTask.user : ConsoleTask → Option (Option String)
  | .sweep => none
  | .add _ userId | .pause _ userId | .resume _ userId | .delete _ userId => some userId

def ConsoleTask.code (room pid : Nat) : ConsoleTask → ConsoleProg ConsoleReply
  | .sweep => (pollSqsQueues room pid).lift.bind fun result => .ret (.swept result)
  | .add form userId => addSqsQueue form userId
  | .pause queueId userId => pauseSqsQueue queueId userId
  | .resume queueId userId => resumeSqsQueue queueId userId
  | .delete queueId userId => deleteSqsQueue queueId userId

/-! ## The rows -/

structure Console where
  board : Board
  queueArn : Nat → Option String
  /-- `uuid4` never repeats a value. -/
  used : List Nat

/-- The row, when it is the user's. -/
def Board.owned (b : Board) (id : Nat) (userId : Option String) : Option QueueRow :=
  (b.row id).filter fun row => row.queue.userId == userId

def Board.add (b : Board) (queue : SqsQueue) (h : queue.id ∉ idsOf b.rows) : Board where
  store := b.store
  rows := ⟨queue, true, b.store.now, none, none⟩ :: b.rows
  keyed := List.nodup_cons.mpr ⟨h, b.keyed⟩

/-- ON DELETE CASCADE takes the events with the row. -/
def Board.remove (b : Board) (id : Nat) : Board where
  store := { b.store with events := b.store.events.filter fun row => row.queueId != id }
  rows := b.rows.filter fun row => row.queue.id != id
  keyed := b.keyed.sublist (List.filter_sublist.map _)

def Board.setStatus (b : Board) (id : Nat) (active : Bool) (errorMessage : Option String) : Board :=
  b.update id fun row => { row with active := active, errorMessage := (errorMessage.map some).getD row.errorMessage }

/-- The answers of `list_for_user`: the user's rows, the newest first. -/
def Board.listsFor (b : Board) (userId : Option String) (queues : List SqsQueue) : Bool :=
  queues.isPerm ((b.rows.filter fun row => row.queue.userId == userId).map (·.queue)) &&
    decide ((queues.map fun queue => (b.row queue.id).map (·.createdAt)).Pairwise fun x y => y.getD 0 ≤ x.getD 0)

/-- The row an event refers to. -/
def SqsOp.refers : SqsOp → Option Nat
  | .createEvent queueId _ _ | .recordFailed queueId _ _ _ => some queueId
  | _ => none

/-- An INSERT of an event needs the row of its queue. -/
def Board.holds (b : Board) (o : SqsOp) : Bool := o.refers.all fun id => (b.row id).isSome

def Console.exec (pid : Nat) (s : Console) : (o : consoleSig.Op) → Except Exc (consoleSig.Ret o) → Option Console
  | .inr (o : SqsOp), .ok (a : o.Ret) =>
    if s.board.holds o then (s.board.exec pid o (.ok a)).map fun board => { s with board } else none
  | .inr (o : SqsOp), .error e => (s.board.exec pid o (.error e)).map fun board => { s with board }
  | .inl _, .error _ => some s
  | .inl (.createQueue fields), .ok (id : Nat) =>
    if h : id ∉ idsOf s.board.rows ∧ id ∉ s.used then
      some ⟨s.board.add (fields.queue id) h.1, upd s.queueArn id (some fields.queueArn), id :: s.used⟩
    else none
  | .inl (.updateStatusForUser queueId userId active errorMessage), .ok (found : Bool) =>
    if found = (s.board.owned queueId userId).isSome then
      some (if found then { s with board := s.board.setStatus queueId active errorMessage } else s)
    else none
  | .inl (.deleteForUser queueId userId), .ok (found : Bool) =>
    if found = (s.board.owned queueId userId).isSome then
      some (if found then { s with board := s.board.remove queueId } else s)
    else none
  | .inl (.getForUser queueId userId), .ok (found : Option (SqsQueue × Option String)) =>
    if found = (s.board.owned queueId userId).map fun row => (row.queue, s.queueArn queueId) then some s else none
  | .inl (.listForUser userId), .ok (queues : List SqsQueue) =>
    if s.board.listsFor userId queues then some s else none
  | .inl _, .ok _ => some s

/-- Requests and sweeps over the rows; the ids of the rows were used. -/
def console (room : Nat) : System consoleSig Exc ConsoleReply where
  State := Console
  Env := Nat
  Task := ConsoleTask
  init s := (pollers room).init s.board.store ∧ ∀ id ∈ idsOf s.board.rows, id ∈ s.used
  exec := Console.exec
  env s ms := some { s with board := { s.board with store := { s.board.store with now := s.board.store.now + ms } } }
  starts _ _ := true
  code pid t := t.code room pid

/-! ## What a row keeps -/

/-- The columns that the requests write. -/
def Board.status (b : Board) (id : Nat) : Option (SqsQueue × Bool) :=
  (b.row id).map fun row => (row.queue, row.active)

section Rows

variable {pid : Nat} {b b' : Board}

theorem status_update (f : QueueRow → QueueRow) (id i : Nat) : (b.update id f).status i =
    (b.row i).map fun row => if i = id then (row.queue, (f row).active) else (row.queue, row.active) := by
  unfold Board.status
  rw [row_update, Option.map_map]
  refine Option.map_congr fun row hrow => ?_
  have hid := row_id (Option.mem_def.mp hrow)
  simp only [Function.comp_apply, patchRow]
  split
  · rename_i h
    rw [if_pos (hid.symm.trans h)]
  · rename_i h
    rw [if_neg fun he => h (hid.trans he)]

theorem status_setStatus (id i : Nat) (active : Bool) (errorMessage : Option String) :
    (b.setStatus id active errorMessage).status i =
      if i = id then (b.status i).map fun s => (s.1, active) else b.status i := by
  unfold Board.setStatus
  rw [status_update]
  unfold Board.status
  split
  · rw [Option.map_map]
    rfl
  · rfl

theorem status_remove (id i : Nat) : (b.remove id).status i = if i = id then none else b.status i := by
  unfold Board.status Board.row Board.remove
  rw [List.find?_filter]
  split
  · rename_i h
    rw [List.find?_eq_none.mpr fun row _ => ?_]
    · rfl
    · simp only [bne_iff_ne, ne_eq, decide_eq_true_eq, beq_iff_eq, not_and]
      omega
  · rename_i h
    refine congrArg (Option.map _) (congrArg (List.find? · b.rows) (funext fun row => ?_))
    by_cases hrow : row.queue.id = i
    · simp [hrow, h]
    · simp [hrow]

theorem status_add {queue : SqsQueue} (h : queue.id ∉ idsOf b.rows) (i : Nat) :
    (b.add queue h).status i = if i = queue.id then some (queue, true) else b.status i := by
  unfold Board.status Board.row Board.add
  by_cases hi : i = queue.id
  · simp [hi]
  · rw [if_neg hi, List.find?_cons_of_neg (by simpa using fun he => hi he.symm)]

/-- A sweep leaves the rows or writes their other columns. -/
theorem exec_rows {o : SqsOp} {r : Except Exc o.Ret} (h : b.exec pid o r = some b') :
    b'.rows = b.rows ∨ ∃ id f, (∀ row, (f row).active = row.active) ∧ b' = b.update id f := by
  have hstore : (b.store.exec pid o r).map (fun store => { b with store }) = some b' → b'.rows = b.rows := by
    intro hx
    obtain ⟨store, _, rfl⟩ := Option.map_eq_some_iff.mp hx
    rfl
  cases r with
  | error e => exact Or.inl (hstore (by cases o <;> exact h))
  | ok a =>
    cases o with
    | listActive =>
      simp only [Board.exec, Option.ite_none_right_eq_some, Option.some.injEq] at h
      exact Or.inl (h.2 ▸ rfl)
    | setError id errorMessage =>
      simp only [Board.exec, Option.ite_none_right_eq_some, Option.some.injEq] at h
      refine Or.inr ⟨id, _, ?_, h.2.symm⟩
      exact fun _ => rfl
    | markPolled id =>
      simp only [Board.exec, Option.ite_none_right_eq_some, Option.some.injEq] at h
      refine Or.inr ⟨id, _, ?_, h.2.symm⟩
      exact fun _ => rfl
    | _ => exact Or.inl (hstore h)

/-- A sweep keeps the status of every row. -/
theorem exec_status {o : SqsOp} {r : Except Exc o.Ret} (h : b.exec pid o r = some b') (id : Nat) :
    b'.status id = b.status id := by
  rcases exec_rows h with hrows | ⟨i, f, hf, rfl⟩
  · unfold Board.status Board.row
    rw [hrows]
  · rw [status_update]
    unfold Board.status
    refine Option.map_congr fun row _ => ?_
    rw [hf, ite_self]

/-- What an operation does to the status of the rows. -/
inductive Marked (s : Console) : consoleSig.Op → Console → Prop
  | kept {o : consoleSig.Op} {s' : Console} : (∀ i, s'.board.status i = s.board.status i) →
      s'.used = s.used → Marked s o s'
  | created {fields : QueueFields} {id : Nat} {s' : Console} : id ∉ s.used → s'.used = id :: s.used →
      (∀ i, s'.board.status i = if i = id then some (fields.queue id, true) else s.board.status i) →
      Marked s (Sum.inl (.createQueue fields)) s'
  | set {queueId : Nat} {userId errorMessage : Option String} {active : Bool} {row : QueueRow} {s' : Console} :
      s.board.row queueId = some row → row.queue.userId = userId → s'.used = s.used →
      (∀ i, s'.board.status i = if i = queueId then (s.board.status i).map fun st => (st.1, active)
        else s.board.status i) →
      Marked s (Sum.inl (.updateStatusForUser queueId userId active errorMessage)) s'
  | removed {queueId : Nat} {userId : Option String} {row : QueueRow} {s' : Console} :
      s.board.row queueId = some row → row.queue.userId = userId → s'.used = s.used →
      (∀ i, s'.board.status i = if i = queueId then none else s.board.status i) →
      Marked s (Sum.inl (.deleteForUser queueId userId)) s'

/-- A statement that is scoped to the user's row answers whether it found it. -/
theorem scoped_some {s s' s₁ : Console} {id : Nat} {userId : Option String} {found : Bool}
    (h : (if found = (s.board.owned id userId).isSome then some (if found then s₁ else s) else none) = some s') :
    found = false ∧ s' = s ∨ found = true ∧ ∃ row, s.board.row id = some row ∧ row.queue.userId = userId ∧
    s' = s₁ := by
  obtain ⟨hfound, hs⟩ := Option.ite_none_right_eq_some.mp h
  cases found with
  | false => exact Or.inl ⟨rfl, (Option.some.inj hs).symm⟩
  | true =>
    obtain ⟨row, hrow⟩ := Option.isSome_iff_exists.mp hfound.symm
    obtain ⟨hrow, hu⟩ := Option.filter_eq_some_iff.mp hrow
    exact Or.inr ⟨rfl, row, hrow, beq_iff_eq.mp hu, (Option.some.inj hs).symm⟩

theorem console_marked {s s' : Console} {o : consoleSig.Op} {r : Except Exc (consoleSig.Ret o)}
    (h : s.exec pid o r = some s') :
    Marked s o s' := by
  rcases o with o | o
  · cases r with
    | error e =>
      cases h
      exact .kept (fun _ => rfl) rfl
    | ok a =>
      cases o with
      | createQueue fields =>
        simp only [Console.exec] at h
        split at h
        · rename_i hfresh
          cases h
          exact .created hfresh.2 rfl fun i => status_add hfresh.1 i
        · cases h
      | updateStatusForUser queueId userId active errorMessage =>
        rcases scoped_some h with ⟨_, rfl⟩ | ⟨_, row, hrow, hu, rfl⟩
        · exact .kept (fun _ => rfl) rfl
        · exact .set hrow hu rfl fun i => status_setStatus queueId i active errorMessage
      | deleteForUser queueId userId =>
        rcases scoped_some h with ⟨_, rfl⟩ | ⟨_, row, hrow, hu, rfl⟩
        · exact .kept (fun _ => rfl) rfl
        · exact .removed hrow hu rfl fun i => status_remove queueId i
      | getForUser queueId userId =>
        simp only [Console.exec, Option.ite_none_right_eq_some, Option.some.injEq] at h
        exact h.2 ▸ .kept (fun _ => rfl) rfl
      | listForUser userId =>
        simp only [Console.exec, Option.ite_none_right_eq_some, Option.some.injEq] at h
        exact h.2 ▸ .kept (fun _ => rfl) rfl
      | _ =>
        cases h
        exact .kept (fun _ => rfl) rfl
  · cases r with
    | error e =>
      obtain ⟨board, hx, rfl⟩ := Option.map_eq_some_iff.mp h
      exact .kept (exec_status hx) rfl
    | ok a =>
      simp only [Console.exec, Option.ite_none_right_eq_some] at h
      obtain ⟨board, hx, rfl⟩ := Option.map_eq_some_iff.mp h.2
      exact .kept (exec_status hx) rfl

end Rows

/-! ## What a sweep polls -/

section Receives

/-- Only messages of these queues are received. -/
def ReceivesOf (queues : List SqsQueue) (o : SqsOp) : Prop := ∀ queue, o = .receiveMessages queue → queue ∈ queues

theorem quiet_receives {queues : List SqsQueue} (o : SqsOp) (h : QuietOp o) : ReceivesOf queues o := by
  intro queue he
  rw [he] at h
  cases h

theorem finish_receives {queues : List SqsQueue} {eventId : EventId} (o : SqsOp) (h : FinishOp eventId o) :
    ReceivesOf queues o := by
  intro queue he
  rw [he] at h
  cases h

variable {queues : List SqsQueue} {queue : SqsQueue} {messageId : String}

theorem receives_processS3Event (event : S3Event) :
    (processS3Event event queue messageId).Uses (ReceivesOf queues) := by
  refine .bind (.bind (.await fun _ he => by cases he) fun found => ?_) fun id => ?_
  · cases found with
    | true => trivial
    | false => exact .bind (.await fun _ he => by cases he) fun _ => trivial
  · cases id with
    | none => trivial
    | some id => exact (uses_finishEvent _ _ _).mono finish_receives

theorem receives_handleEvents (events : List S3Event) (n : Nat) :
    (handleEvents queue messageId events n).Uses (ReceivesOf queues) := by
  induction events generalizing n with
  | nil => trivial
  | cons event rest ih =>
    unfold handleEvents
    split
    · refine .bind (.catching (.bind (receives_processS3Event event) fun _ => trivial) fun e => ?_) fun n => ih n
      exact uses_eventFailed fun _ _ he => by cases he
    · exact ih n

theorem receives_handleMessages (room : Nat) (messages : List Message) (n : Nat) :
    (handleMessages room queue messages n).Uses (ReceivesOf queues) := by
  induction messages generalizing n with
  | nil => trivial
  | cons message rest ih =>
    refine .bind ?_ fun n => ih n
    unfold handleMessage
    split
    · trivial
    · exact .bind (receives_handleEvents _ _) fun n => .bind (uses_deleteMessage fun _ he => by cases he)
        fun _ => trivial

theorem receives_pollQueue (room : Nat) (hm : queue ∈ queues) (w : Sweep) :
    (pollQueue room queue w).Uses (ReceivesOf queues) := by
  refine .bind (((uses_sqsClient _ _).mono quiet_receives).attempt) fun r => ?_
  rcases r with e | _ | clients
  · exact (uses_queueFailed _ _ _).mono quiet_receives
  · trivial
  · have hreceive : ReceivesOf queues (.receiveMessages queue) := fun _ he => by cases he; exact hm
    refine .bind (Prog.Uses.attempt (.bind (.await hreceive) fun ms => receives_handleMessages room _ _)) fun r => ?_
    cases r with
    | error e => exact (uses_queueFailed _ _ _).mono quiet_receives
    | ok n => exact (uses_markPolled _ _).mono quiet_receives

theorem receives_pollQueues (room : Nat) {rest : List SqsQueue} (hr : ∀ queue ∈ rest, queue ∈ queues) (w : Sweep) :
    (pollQueues room rest w).Uses (ReceivesOf queues) := by
  induction rest generalizing w with
  | nil => trivial
  | cons queue rest ih =>
    exact .bind (receives_pollQueue room (hr queue List.mem_cons_self) w) fun w =>
      ih (fun q hq => hr q (List.mem_cons_of_mem _ hq)) w

end Receives

section Law

variable {room pid : Nat}

abbrev ConsoleWorld (room : Nat) := World (console room)

/-- The process was given the list. -/
def ListedIn (pid : Nat) (queues : List SqsQueue) (hist : List (Event consoleSig Exc)) : Prop :=
  (⟨pid, Sum.inr SqsOp.listActive, Except.ok queues⟩ : Event consoleSig Exc) ∈ hist

/-- A poll is of a queue that the process was given. -/
def consoleGuar (pid : Nat) (w w' : ConsoleWorld room) : Prop :=
  w.hist <:+ w'.hist ∧ ∀ queue r, w'.hist.head? = some ⟨pid, Sum.inr (SqsOp.receiveMessages queue), r⟩ →
    ∃ queues, ListedIn pid queues w.hist ∧ queue ∈ queues

abbrev consoleLaw (room pid : Nat) : Law (ConsoleWorld room) consoleSig Exc :=
  (console room).law (fun _ => True) (fun _ w w' => w.hist <:+ w'.hist) (fun pid => consoleGuar pid)
    (fun _ _ _ _ => True) pid

/-- The operations of a sweep. -/
abbrev sweepLaw (room pid : Nat) : Law (ConsoleWorld room) sqsSig Exc :=
  ⟨fun _ => True, fun w w' => w.hist <:+ w'.hist,
    consoleGuar pid, fun w o r w' => (consoleLaw room pid).act w (Sum.inr o) r w'⟩

theorem sweep_act {w w' : ConsoleWorld room} {o : SqsOp} {r : Except Exc o.Ret}
    (ha : (sweepLaw room pid).act w o r w') :
    w'.hist = ⟨pid, Sum.inr o, r⟩ :: w.hist := by
  obtain ⟨_, s, _, rfl⟩ := ha
  rfl

/-- With a list in hand the process may receive from its queues. -/
theorem listed_keeping (queues : List SqsQueue) :
    Keeping (sweepLaw room pid) (ReceivesOf queues) fun w => ListedIn pid queues w.hist where
  rely _ _ hr h := hr.mem h
  op w o r w' ho hw _ ha := by
    have hh := sweep_act ha
    refine ⟨⟨by rw [hh]; exact List.suffix_cons _ _, fun queue r' hhead => ⟨queues, hw, ?_⟩⟩,
      by rw [hh]; exact List.mem_cons_of_mem _ hw⟩
    rw [hh] at hhead
    cases hhead
    exact ho queue rfl

/-- Nothing is received. -/
theorem quiet_keeping : Keeping (sweepLaw room pid) (ReceivesOf []) fun _ => True where
  rely _ _ _ h := h
  op w o r w' ho hw _ ha := by
    have hh := sweep_act ha
    refine ⟨⟨by rw [hh]; exact List.suffix_cons _ _, fun queue r' hhead => ?_⟩, trivial⟩
    rw [hh] at hhead
    cases hhead
    cases ho queue rfl

theorem wp_listActive {w : ConsoleWorld room} :
    wp (sweepLaw room pid) (await .listActive)
      (fun x w => ∀ queues : List SqsQueue, x = .ok queues → ListedIn pid queues w.hist) w := by
  refine wp_await fun w₁ _ _ r w₂ ha => ?_
  refine ⟨(quiet_keeping.op w₁ .listActive r w₂ (fun _ he => by cases he) trivial trivial ha).1, fun queues he => ?_⟩
  cases he
  unfold ListedIn
  rw [sweep_act (o := .listActive) ha]
  exact List.mem_cons_self

theorem wp_sweepListed {w : ConsoleWorld room} : wp (sweepLaw room pid) (sweep room) (fun _ _ => True) w := by
  have hlist : ∀ (queues : List SqsQueue) (w : ConsoleWorld room), ListedIn pid queues w.hist →
      wp (sweepLaw room pid) (if queues.isEmpty then .ret (PollResult.ok 0 0 []) else
        (pollQueues room queues ⟨[], 0, []⟩).bind fun w => .ret (PollResult.ok queues.length w.totalEvents w.errors))
        (fun _ _ => True) w := by
    intro queues w hw
    refine wp_mono (fun _ _ _ => trivial) ((listed_keeping queues).uses ?_ hw)
    split
    · trivial
    · exact .bind (receives_pollQueues room (fun _ h => h) _) fun _ => trivial
  refine wp_bind.mpr (wp_mono (fun x w hx => ?_) wp_listActive)
  cases x with
  | error e => trivial
  | ok queues => exact hlist queues w (hx queues rfl)

theorem wp_pollListed {w : ConsoleWorld room} :
    wp (sweepLaw room pid) (pollSqsQueues room pid) (fun _ _ => True) w := by
  have hrelease : (do let _ ← releasePollLock pid; return () : SqsProg Unit).Uses (ReceivesOf []) := by
    refine .bind (.catching (.await fun _ he => by cases he) fun e => ?_) fun _ => trivial
    split <;> trivial
  refine wp_seq (quiet_keeping.uses (.await fun _ he => by cases he) trivial) (fun _ _ h => h)
    fun (acquired : Bool) w _ => ?_
  split
  · refine wp_finally.mpr (wp_mono (fun x w _ => ?_) wp_sweepListed)
    cases x <;> exact wp_mono (fun y _ _ => by cases y <;> trivial) (quiet_keeping.uses hrelease trivial)
  · trivial

/-- A request of a user receives nothing, and writes rows as that user. -/
def RequestOp (userId : Option String) : consoleSig.Op → Prop
  | .inr (.receiveMessages _) => False
  | .inl (.createQueue fields) => fields.userId = userId
  | .inl (.updateStatusForUser _ u _ _) | .inl (.deleteForUser _ u) => u = userId
  | _ => True

/-- What a task may do. -/
def ConsoleTask.Does (t : ConsoleTask) (o : consoleSig.Op) : Prop :=
  match t.user with
  | some userId => RequestOp userId o
  | none => ∃ o', o = Sum.inr o'

section Requests

variable {userId : Option String}

theorem uses_ask {P : consoleSig.Op → Prop} {o : ConsoleOp} (h : P (Sum.inl o)) : (ask o).Uses P := .await h

theorem uses_queueList (note : Option (Except String String)) : (queueList userId note).Uses (RequestOp userId) :=
  .bind (uses_ask trivial) fun _ => trivial

theorem uses_getSqsCredentials : (getSqsCredentials userId).Uses (RequestOp userId) := .lift (.await trivial)

theorem uses_cleanup (queue : SqsQueue) (queueArn : Option String) (creds : Option SqsCreds) :
    (cleanup queue queueArn userId creds).Uses (RequestOp userId) := by
  have hnotification : (cleanupNotification queue queueArn userId).Uses (RequestOp userId) := by
    unfold cleanupNotification
    split
    · trivial
    split
    · trivial
    refine .bind (uses_ask trivial) fun (dsCred : Option (String × String)) => ?_
    cases dsCred with
    | none => trivial
    | some row =>
      obtain ⟨filespaceId, bucketName⟩ := row
      simp only []
      split
      · trivial
      · exact .bind (uses_ask trivial) fun (removed : Except String Bool) => by cases removed <;> trivial
  unfold cleanup
  split
  · trivial
  split
  · trivial
  exact .bind hnotification fun _ => .bind (uses_ask trivial)
    fun (deleted : Except String Bool) => by cases deleted <;> trivial

theorem uses_newAwsQueue (form : QueueForm) (bucketName : String) :
    (newAwsQueue form bucketName).Uses (RequestOp userId) := by
  unfold newAwsQueue
  split
  · trivial
  split
  · trivial
  refine .bind (uses_ask trivial) fun (info : QueueInfo) => ?_
  split
  · exact .bind (uses_ask trivial) fun _ => .bind (uses_ask trivial) fun _ => trivial
  · trivial

theorem uses_existingAwsQueue (form : QueueForm) : (existingAwsQueue form).Uses (RequestOp userId) := by
  unfold existingAwsQueue
  split
  · trivial
  split
  · trivial
  · exact uses_ask trivial

theorem uses_addSqsQueue (form : QueueForm) : (addSqsQueue form userId).Uses (RequestOp userId) := by
  refine .catching ?_ fun e => by cases e <;> trivial
  refine .bind uses_getSqsCredentials fun creds => ?_
  cases creds with
  | none => trivial
  | some creds =>
    simp only []
    split
    · trivial
    refine .bind (uses_ask trivial) fun (dsCred : Option (String × String)) => ?_
    cases dsCred with
    | none => trivial
    | some row =>
      obtain ⟨filespaceId, bucketName⟩ := row
      simp only []
      split
      · exact .bind (uses_newAwsQueue form bucketName) fun _ => .bind (uses_ask rfl) fun _ => uses_queueList _
      · exact .bind (uses_existingAwsQueue form) fun _ => .bind (uses_ask rfl) fun _ => uses_queueList _

theorem uses_deleteSqsQueue (queueId : Nat) : (deleteSqsQueue queueId userId).Uses (RequestOp userId) := by
  refine .bind (uses_ask trivial) fun (found : Option (SqsQueue × Option String)) => ?_
  cases found with
  | none => exact uses_queueList _
  | some row =>
    exact .bind uses_getSqsCredentials fun _ => .bind (uses_cleanup _ _ _) fun _ => .bind (uses_ask rfl)
      fun _ => uses_queueList _

/-- Its own statements, and the messages of the cron. -/
theorem uses_task (room pid : Nat) (t : ConsoleTask) : (t.code room pid).Uses t.Does := by
  have hstatus : ∀ queueId userId active errorMessage, (do
      let _ ← ask (.updateStatusForUser queueId userId active errorMessage)
      let _ ← ask (.getForUser queueId userId)
      queueList userId none : ConsoleProg ConsoleReply).Uses (RequestOp userId) := fun _ _ _ _ =>
    .bind (uses_ask rfl) fun _ => .bind (uses_ask trivial) fun _ => uses_queueList _
  cases t with
  | sweep => exact .bind (.lift ((pollSqsQueues room pid).uses_all.mono fun o _ => ⟨o, rfl⟩)) fun _ => trivial
  | add form userId => exact uses_addSqsQueue form
  | pause queueId userId => exact hstatus _ _ _ _
  | resume queueId userId => exact hstatus _ _ _ _
  | delete queueId userId => exact uses_deleteSqsQueue queueId

end Requests

theorem request_keeps {userId : Option String} {p : ConsoleProg ConsoleReply}
    (hp : p.Uses (RequestOp userId)) {w : ConsoleWorld room} :
    wp (consoleLaw room pid) p (fun _ _ => True) w := by
  refine wp_uses (fun _ _ _ h => h) (fun w o r w' ho _ _ ha => ?_) hp trivial
  obtain ⟨_, s, _, rfl⟩ := ha
  refine ⟨⟨List.suffix_cons _ _, fun queue r' hhead => ?_⟩, trivial⟩
  cases hhead
  exact ho.elim

theorem wp_console (t : ConsoleTask) {w : ConsoleWorld room} :
    wp (consoleLaw room pid) (t.code room pid) (fun _ _ => True) w := by
  have huses := uses_task room pid t
  cases t with
  | sweep =>
    have hlift : wp (consoleLaw room pid) (pollSqsQueues room pid).lift (fun _ _ => True) w :=
      wp_lift (fun w => w) (fun _ _ h => h) (fun _ h => h) (fun _ _ _ _ h => h) (fun _ _ _ _ _ h => h) wp_pollListed
    exact wp_seq hlift (fun _ _ h => h) fun _ _ _ => trivial
  | add form userId => exact request_keeps huses
  | pause queueId userId => exact request_keeps huses
  | resume queueId userId => exact request_keeps huses
  | delete queueId userId => exact request_keeps huses

def consoleSound (room : Nat) : Sound (console room) any where
  inv _ := True
  rely _ w w' := w.hist <:+ w'.hist
  guar pid _ := consoleGuar pid
  allow _ _ _ _ := True
  post _ _ _ _ := True
  refl _ _ := List.suffix_refl _
  trans _ _ _ _ h h' := h.trans h'
  init _ _ := trivial
  keep _ _ _ _ _ _ := trivial
  others _ _ _ _ _ _ _ hg := hg.1
  outside _ _ _ _ _ := ⟨trivial, fun _ => List.suffix_refl _⟩
  allowed _ _ _ := trivial
  stable _ _ _ _ _ _ _ := trivial
  code _ t _ _ _ _ := wp_console t

end Law

/-! ## Runs -/

section Runs

variable {room : Nat} {s : Console} {f : Sched (console room)}

/-- What happened at a step of a run. -/
theorem event_exec {n : Nat} {e : Event consoleSig Exc} (he : event (conf s f n) (f n) = some e) :
    (conf s f n).w.st.exec e.pid e.op e.ans = some (conf s f (n + 1)).w.st := by
  obtain ⟨k, s', _, hx, hs'⟩ := event_some he
  have hst : (conf s f (n + 1)).w.st = s' := by
    show (step _ _).w.st = s'
    rw [hs']
    rfl
  rw [hst]
  exact hx

/-- A step marks rows by its operation, or leaves the status of every row. -/
theorem step_marked (n : Nat) :
    (∃ pid o r, event (conf s f n) (f n) = some ⟨pid, o, r⟩ ∧ Marked (conf s f n).w.st o (conf s f (n + 1)).w.st) ∨
    ((∀ i, (conf s f (n + 1)).w.st.board.status i = (conf s f n).w.st.board.status i) ∧
      (conf s f (n + 1)).w.st.used = (conf s f n).w.st.used) := by
  cases he : event (conf s f n) (f n) with
  | some e => exact Or.inl ⟨e.pid, e.op, e.ans, rfl, console_marked (event_exec he)⟩
  | none =>
    refine Or.inr ?_
    have hm := step_moved (conf s f n) (f n)
    show (∀ i, (step (conf s f n) (f n)).w.st.board.status i = _) ∧ (step (conf s f n) (f n)).w.st.used = _
    revert hm
    generalize step (conf s f n) (f n) = c'
    intro hm
    cases hm with
    | ran _ _ hev => rw [he] at hev; cases hev
    | idle => exact ⟨fun _ => rfl, rfl⟩
    | crashed => exact ⟨fun _ => rfl, rfl⟩
    | started => exact ⟨fun _ => rfl, rfl⟩
    | moved _ hx =>
      cases hx
      exact ⟨fun _ => rfl, rfl⟩

/-- The ids of the rows were used. -/
theorem rows_used (hs : (console room).init s) (n : Nat) {id : Nat} {st : SqsQueue × Bool}
    (h : (conf s f n).w.st.board.status id = some st) : id ∈ (conf s f n).w.st.used := by
  induction n generalizing id st with
  | zero =>
    obtain ⟨row, hrow, _⟩ := Option.map_eq_some_iff.mp h
    refine hs.2 id (List.mem_map.mpr ⟨row, List.mem_of_find?_eq_some hrow, row_id hrow⟩)
  | succ n ih =>
    rcases @step_marked room s f n with ⟨_, _, _, _, hm⟩ | ⟨hkept, hused⟩
    · cases hm with
      | kept hkept hused => exact hused ▸ ih ((hkept id).symm.trans h)
      | @created fields i _ hfresh hused hst =>
        rw [hused]
        rw [hst] at h
        split at h
        · rename_i hid
          rw [hid]
          exact List.mem_cons_self
        · exact List.mem_cons_of_mem _ (ih h)
      | @set queueId userId errorMessage active row _ hrow hu hused hst =>
        rw [hused]
        rw [hst] at h
        split at h
        · obtain ⟨st', hst', _⟩ := Option.map_eq_some_iff.mp h
          exact ih hst'
        · exact ih h
      | @removed queueId userId row _ hrow hu hused hst =>
        rw [hused]
        rw [hst] at h
        split at h
        · cases h
        · exact ih h
    · exact hused ▸ ih ((hkept id).symm.trans h)

theorem row_status {b : Board} {id : Nat} {row : QueueRow} (h : b.row id = some row) :
    b.status id = some (row.queue, row.active) := by
  rw [Board.status, h]
  rfl

/-- The ids are the primary key. -/
theorem row_mem {b : Board} {row : QueueRow} (h : row ∈ b.rows) : b.row row.queue.id = some row := by
  cases hfind : b.row row.queue.id with
  | none => exact absurd (List.find?_eq_none.mp hfind row h) (by simp)
  | some row' =>
    exact congrArg some (List.inj_on_of_nodup_map b.keyed (List.mem_of_find?_eq_some hfind) h (row_id hfind))

/-- A queue of the list is active. -/
theorem listed_active {s s' : Console} {pid : Nat} {queues : List SqsQueue} {queue : SqsQueue}
    (h : s.exec pid (Sum.inr SqsOp.listActive) (.ok queues) = some s') (hm : queue ∈ queues) :
    s.board.status queue.id = some (queue, true) := by
  simp only [Console.exec, Option.ite_none_right_eq_some] at h
  obtain ⟨board, hx, _⟩ := Option.map_eq_some_iff.mp h.2
  simp only [Board.exec, Option.ite_none_right_eq_some] at hx
  have hperm := List.isPerm_iff.mp (Bool.and_eq_true_iff.mp hx.1).1
  obtain ⟨row, hrow, rfl⟩ := List.mem_map.mp (hperm.mem_iff.mp hm)
  obtain ⟨hrow, hactive⟩ := List.mem_filter.mp hrow
  rw [row_status (row_mem hrow), hactive]

/-- A queue is only polled by a sweep that listed it. -/
theorem polled_listed (hs : (console room).init s) (f : Sched (console room)) {m pid : Nat} {queue : SqsQueue}
    {r : Except Exc (List Message)} (he : event (conf s f m)
      (f m) = some ⟨pid, Sum.inr (SqsOp.receiveMessages queue), r⟩) :
    ∃ k < m, ∃ queues, event (conf s f k) (f k) = some ⟨pid, Sum.inr SqsOp.listActive, .ok queues⟩ ∧
      (conf s f k).w.st.board.status queue.id = some (queue, true) := by
  have hreach : Reach any (conf s f m) := conf_reach hs fun _ _ _ _ => trivial
  obtain ⟨_, _, hp, hx, _⟩ := event_some he
  obtain ⟨_, _, hg⟩ := (consoleSound room).promise hreach hp hx trivial
  obtain ⟨queues, hlisted, hm⟩ := hg.2 queue r rfl
  obtain ⟨k, hk, hek⟩ := hist_event hlisted
  exact ⟨k, hk, queues, hek, listed_active (event_exec hek) hm⟩

def Resumes (id : Nat) (userId : Option String) (e : Event consoleSig Exc) : Prop :=
  ∃ errorMessage, e.op = Sum.inl (ConsoleOp.updateStatusForUser id userId true errorMessage)

/-- A pause or a deletion by the owner that found the row. -/
inductive TurnsOff (id : Nat) (userId : Option String) : Event consoleSig Exc → Prop
  | pause (pid : Nat) (errorMessage : Option String) :
      TurnsOff id userId ⟨pid, Sum.inl (ConsoleOp.updateStatusForUser id userId false errorMessage), .ok true⟩
  | delete (pid : Nat) : TurnsOff id userId ⟨pid, Sum.inl (ConsoleOp.deleteForUser id userId), .ok true⟩

/-- The user's row is not active, or is gone for good. -/
def Console.Off (s : Console) (id : Nat) (userId : Option String) : Prop :=
  id ∈ s.used ∧ ∀ st, s.board.status id = some st → st.2 = false ∧ st.1.userId = userId

theorem off_marked {s s' : Console} {o : consoleSig.Op} {id : Nat} {userId : Option String}
    (h : s.Off id userId) (hm : Marked s o s')
    (ho : ∀ errorMessage, o ≠ Sum.inl (ConsoleOp.updateStatusForUser id userId true errorMessage)) :
    s'.Off id userId := by
  obtain ⟨hu, hoff⟩ := h
  cases hm with
  | kept hkept hused => exact ⟨hused ▸ hu, fun st hst => hoff st ((hkept id).symm.trans hst)⟩
  | @created fields i _ hfresh hused hstatus =>
    refine ⟨by rw [hused]; exact List.mem_cons_of_mem _ hu, fun st hst => ?_⟩
    have hne : id ≠ i := by
      rintro rfl
      exact hfresh hu
    rw [hstatus, if_neg hne] at hst
    exact hoff st hst
  | @set queueId u errorMessage active row _ hrow howner hused hstatus =>
    refine ⟨hused ▸ hu, fun st hst => ?_⟩
    rw [hstatus] at hst
    split at hst
    · rename_i hid
      subst hid
      obtain ⟨st', hst', rfl⟩ := Option.map_eq_some_iff.mp hst
      have hoff' := hoff _ hst'
      have hrow' := hoff _ (row_status hrow)
      cases active with
      | false => exact ⟨rfl, hoff'.2⟩
      | true => exact absurd (by rw [← hrow'.2, howner]) (ho errorMessage)
    · exact hoff st hst
  | @removed queueId u row _ hrow howner hused hstatus =>
    refine ⟨hused ▸ hu, fun st hst => ?_⟩
    rw [hstatus] at hst
    split at hst
    · cases hst
    · exact hoff st hst

theorem off_stays {id n m : Nat} {userId : Option String} (hnm : n ≤ m) (h : (conf s f n).w.st.Off id userId)
    (hno : ∀ k, n ≤ k → k < m → ∀ e, event (conf s f k) (f k) = some e → ¬ Resumes id userId e) :
    (conf s f m).w.st.Off id userId := by
  induction m with
  | zero => cases Nat.le_zero.mp hnm; exact h
  | succ m ih =>
    rcases Nat.lt_or_ge n (m + 1) with hlt | hge
    · have hm := ih (by omega) fun k hk hkm => hno k hk (by omega)
      rcases @step_marked room s f m with ⟨pid, o, r, he, hmarked⟩ | ⟨hkept, hused⟩
      · exact off_marked hm hmarked fun msg ho => hno m (by omega) (Nat.lt_succ_self m) _ he ⟨msg, ho⟩
      · exact ⟨hused ▸ hm.1, fun st hst => hm.2 st ((hkept id).symm.trans hst)⟩
    · cases Nat.le_antisymm hnm hge
      exact h

theorem stops_off (hs : (console room).init s) {n id : Nat} {userId : Option String} {e : Event consoleSig Exc}
    (he : event (conf s f n) (f n) = some e) (h : TurnsOff id userId e) : (conf s f (n + 1)).w.st.Off id userId := by
  have hx := event_exec he
  cases h with
  | pause pid errorMessage =>
    rcases scoped_some hx with ⟨hfound, _⟩ | ⟨_, row, hrow, hu, hst⟩
    · cases hfound
    rw [hst]
    refine ⟨rows_used hs n (row_status hrow), fun st hst => ?_⟩
    have hst : ((conf s f n).w.st.board.setStatus id false errorMessage).status id = some st := hst
    rw [status_setStatus, if_pos rfl, row_status hrow] at hst
    cases hst
    exact ⟨rfl, hu⟩
  | delete pid =>
    rcases scoped_some hx with ⟨hfound, _⟩ | ⟨_, row, hrow, hu, hst⟩
    · cases hfound
    rw [hst]
    refine ⟨rows_used hs n (row_status hrow), fun st hst => ?_⟩
    have hst : ((conf s f n).w.st.board.remove id).status id = some st := hst
    rw [status_remove, if_pos rfl] at hst
    cases hst

/-- Once its owner paused or deleted a queue, a poll of it comes from a sweep that listed it
    before, or after its owner resumed it. -/
theorem paused_unpolled (hs : (console room).init s) (f : Sched (console room)) {n id : Nat} {userId : Option String}
    {e : Event consoleSig Exc} (he : event (conf s f n) (f n) = some e) (hstop : TurnsOff id userId e) :
    ∀ m pid queue r, n < m → event (conf s f m) (f m) =
      some ⟨pid, Sum.inr (SqsOp.receiveMessages queue), r⟩ → queue.id = id →
        ∃ k, k < m ∧ ((k < n ∧ ∃ queues, event (conf s f k) (f k) = some ⟨pid, Sum.inr SqsOp.listActive, .ok queues⟩) ∨
          (n < k ∧ ∃ e', event (conf s f k) (f k) = some e' ∧ Resumes id userId e')) := by
  intro m pid queue r hnm hm hid
  obtain ⟨k, hkm, queues, hk, hactive⟩ := polled_listed hs f hm
  rw [hid] at hactive
  by_cases hkn : k < n
  · exact ⟨k, hkm, Or.inl ⟨hkn, queues, hk⟩⟩
  by_cases hresume : ∃ j, n < j ∧ j < m ∧ ∃ e', event (conf s f j) (f j) = some e' ∧ Resumes id userId e'
  · obtain ⟨j, hnj, hjm, hj⟩ := hresume
    exact ⟨j, hjm, Or.inr ⟨hnj, hj⟩⟩
  · have hne : k ≠ n := by
      rintro rfl
      rw [hk] at he
      cases he
      cases hstop
    have hoff := off_stays (m := k) (by omega) (stops_off hs he hstop) fun j hj hjk e' he' hr =>
      hresume ⟨j, by omega, by omega, e', he', hr⟩
    cases (hoff.2 _ hactive).1

end Runs

/-! ## One pause -/

def oneQueue : Console := ⟨⟨idleStore, [⟨theQueue, true, 0, none, none⟩], by decide⟩, fun _ => none, [1]⟩

theorem oneQueue_init : (console 9).init oneQueue := ⟨⟨rfl, rfl, rfl⟩, by decide⟩

def sweepAnswer (_ : Console) : (o : consoleSig.Op) → Except Exc (consoleSig.Ret o)
  | .inl (.updateStatusForUser _ _ _ _) => .ok true
  | .inr .listActive => .ok [theQueue]
  | .inr (.acquirePollLock _) => .ok true
  | .inr (.getSqsCredentials _) => .ok (some ⟨"key", "secret", "us-east-1"⟩)
  | .inr (.newSqsService _ _ _) => .ok ()
  | .inr (.receiveMessages _) => .ok []
  | _ => .error .cancelled

/-- A sweep has listed the queue when its owner pauses it; then it polls it. -/
def pausing : Sched (console 9) :=
  let runs := fun pid => Choice.run (M := console 9) pid sweepAnswer
  sched ([.start .sweep, runs 0, runs 0, .start (.pause 1 none), runs 1] ++ List.replicate 3 (runs 0)) (.env (0 : Nat))

theorem paused_unpolled_pausing : ∃ r, event (conf oneQueue pausing 7) (pausing 7) =
      some ⟨0, Sum.inr (SqsOp.receiveMessages theQueue), r⟩ ∧
    ∃ k < 7, (k < 4 ∧ ∃ queues, event (conf oneQueue pausing k) (pausing k) =
        some ⟨0, Sum.inr SqsOp.listActive, .ok queues⟩) ∨
      (4 < k ∧ ∃ e', event (conf oneQueue pausing k) (pausing k) = some e' ∧ Resumes 1 none e') :=
  ⟨_, rfl, @paused_unpolled 9 oneQueue oneQueue_init pausing 4 1 none _ rfl (.pause 1 none) 7 0 theQueue _
    (by decide) rfl rfl⟩

end Connect.Sqs
